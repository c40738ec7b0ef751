/-
  SeamlessCore.Cache.Raises — the buffer cache with its exceptions.

  The operations of the cache model always return.  The code raises in three
  places.  The checksum of a fresh buffer may not be calculated, and after
  `seamless.close()` the writer refuses every buffer: an operation hands it
  over after the references are counted.  And demotion asks for the interest
  of a tempref, after the claim has been given back; `fade_factor ** steps`
  overflows once the tempref has not been refreshed for long enough.  The
  operations are written here a second time, with what they leave when they
  raise; where nothing raises they are those of the cache model.

  Main results:
    * `stepRun_ends` — a call returns as `step` does, or raises with its claim
      booked, or raises with no claim moved;
    * `guarded_after` — whatever raises, no claimed entry is removed;
    * `referenceAccounting` — the counts are those of the successful calls
      exactly if no call raises with its claim booked.

  Source: `seamless/caching/buffer_cache.py`, `caching/buffer_writer.py`.
-/
import SeamlessCore.Cache.Eviction

namespace SeamlessCore.BufferCache

variable {Checksum Buffer F : Type} [DecidableEq Checksum]

/-! ## §1. The operations with their exceptions. -/

/-- What makes an operation raise, other than the floats -/
structure Surroundings where
  /-- the session is closed: `buffer_writer.register` raises `RuntimeError` -/
  closed : Bool
  /-- `cached_calculate_checksum` raises on a buffer without checksum -/
  hashFails : Bool
  deriving DecidableEq

omit [DecidableEq Checksum] in
/-- `buffer_writer.register(write_buffer)`, unless it is `None`, and whether it
returns. -/
def handOverRun (w : Surroundings) (s : BufferCache Checksum Buffer F)
    (writeBuffer : Option Buffer) : BufferCache Checksum Buffer F × Bool :=
  if w.closed && writeBuffer.isSome then (s, false) else (s.handOver writeBuffer, true)

omit [DecidableEq Checksum] in
/-- The end of an operation that returns `outcome`; no outcome is an exception. -/
def ended (outcome : Outcome Buffer) (r : BufferCache Checksum Buffer F × Bool) :
    BufferCache Checksum Buffer F × Option (Outcome Buffer) :=
  (r.1, if r.2 then some outcome else none)

variable (P : CacheParams Checksum Buffer F) (err : FloatErrors F)

/-- `_demote_locked(checksum, entry)`, and whether it returns: the interest of
a tempref is asked for only when no other claim is left. -/
def demoteRun (s : BufferCache Checksum Buffer F) (cs : Checksum) (now : F) :
    BufferCache Checksum Buffer F × Bool :=
  match s.strongCache.lookup cs with
  | none => (s, true)
  | some e =>
    if e.manualRefs == 0 && !e.hasRefholderBridge && entryRaises err P.float e now then (s, false)
    else (demote P.float s cs now, true)

/-- `register(checksum, buffer, size)`, and whether it returns -/
def registerRun (w : Surroundings) (s : BufferCache Checksum Buffer F) (cs : Checksum) (b : Buffer)
    (size : Option Nat) : BufferCache Checksum Buffer F × Bool :=
  let (s, writeBuffer) := registerLocked P s cs b size
  handOverRun w s writeBuffer

/-- `buffer.get_checksum()` on an argument, and whether it returns -/
def getChecksumRun (w : Surroundings) (s : BufferCache Checksum Buffer F)
    (arg : Option (BufferArg Buffer)) : BufferCache Checksum Buffer F × Bool :=
  match arg with
  | some ⟨b, true⟩ =>
    if w.hashFails then (s, false)
    else registerRun P w s (P.checksum b) b (some (P.contentLength b))
  | _ => (s, true)

/-- An operation that ensures an entry, updates it, and lets go of the lock
before it writes; `updateFails` says that the update raises. -/
def withEntryRun (w : Surroundings) (s : BufferCache Checksum Buffer F) (cs : Checksum)
    (arg : Option (BufferArg Buffer)) (scratch : Bool)
    (updateFails : BufferCache Checksum Buffer F → Bool)
    (update : BufferCache Checksum Buffer F → BufferCache Checksum Buffer F) :
    BufferCache Checksum Buffer F × Option (Outcome Buffer) :=
  let hashed := getChecksumRun P w s arg
  if hashed.2 then
    match ensureEntry P s cs arg scratch with
    | (s, none) => (s, some .assertionError)
    | (s, some writeBuffer) =>
      if updateFails s then (s, none) else ended .done (handOverRun w (update s) writeBuffer)
  else (hashed.1, none)

/-- `incref(checksum, buffer, scratch)` -/
def increfRun (w : Surroundings) (s : BufferCache Checksum Buffer F) (cs : Checksum)
    (arg : Option (BufferArg Buffer)) (scratch : Bool) :
    BufferCache Checksum Buffer F × Option (Outcome Buffer) :=
  let s := if scratch then s.addScratch cs else s.discardScratch cs
  withEntryRun P w s cs arg scratch (fun _ => false) fun s =>
    s.updateEntry cs fun e => { e with manualRefs := e.manualRefs + 1 }

/-- `decref(checksum)` -/
def decrefRun (s : BufferCache Checksum Buffer F) (cs : Checksum) (now : F) :
    BufferCache Checksum Buffer F × Option (Outcome Buffer) :=
  match s.strongCache.lookup cs with
  | none => (s, some (.released false))
  | some e =>
    if e.manualRefs = 0 then (s, some (.released false))
    else
      let s := s.setEntry cs { e with manualRefs := e.manualRefs - 1 }
      ended (.released true) (demoteRun P err s cs now)

/-- `incref_refholder(checksum, buffer, scratch)` -/
def increfRefholderRun (w : Surroundings) (s : BufferCache Checksum Buffer F) (cs : Checksum)
    (arg : Option (BufferArg Buffer)) (scratch : Option Bool) :
    BufferCache Checksum Buffer F × Option (Outcome Buffer) :=
  withEntryRun P w (s.noteScratch cs scratch) cs arg (scratch ≠ some false) (fun _ => false)
    fun s => s.addHolder cs

/-- `decref_refholder(checksum)` -/
def decrefRefholderRun (s : BufferCache Checksum Buffer F) (cs : Checksum) (now : F) :
    BufferCache Checksum Buffer F × Option (Outcome Buffer) :=
  let count := (s.refholderCounts.lookup cs).getD 0
  if count = 0 then (s, some (.released false))
  else if count = 1 then
    let s := (s.dropCount cs).updateEntry cs fun e => { e with hasRefholderBridge := false }
    ended (.released true) (demoteRun P err s cs now)
  else (s.setCount cs (count - 1), some (.released true))

/-- The refresh of an old tempref divides by the fade intervals, unless the
new interest is higher. -/
def refreshRaises (f : FloatOps F) (old : Option (TempRef F))
    (interest fadeFactor fadeInterval : F) : Bool :=
  old.any fun t => !f.lt t.interest interest &&
    (err.div fadeFactor fadeInterval || err.div t.fadeFactor t.fadeInterval)

/-- `tempref(checksum, buffer, interest, fade_factor, fade_interval)` -/
def temprefRun (w : Surroundings) (s : BufferCache Checksum Buffer F) (cs : Checksum)
    (arg : Option (BufferArg Buffer)) (interest fadeFactor fadeInterval now : F) :
    BufferCache Checksum Buffer F × Option (Outcome Buffer) :=
  withEntryRun P w s cs arg true
    (fun s => refreshRaises err P.float ((s.strongCache.lookup cs).bind StrongEntry.tempref)
      interest fadeFactor fadeInterval)
    fun s => s.updateEntry cs fun e =>
      { e with
        tempref := some (refreshedTempref P.float e.tempref interest fadeFactor fadeInterval now)
        temprefScratch := true }

/-- `transfer_write(checksum, buffer)` -/
def transferWriteRun (w : Surroundings) (s : BufferCache Checksum Buffer F) (cs : Checksum)
    (arg : Option (BufferArg Buffer)) :
    BufferCache Checksum Buffer F × Option (Outcome Buffer) :=
  withEntryRun P w (s.discardScratch cs) cs arg false (fun _ => false) id

/-- `run_eviction_once()` -/
def runEvictionOnceRun (r : EvictionReadings Checksum F) (s : BufferCache Checksum Buffer F) :
    BufferCache Checksum Buffer F × Option (Outcome Buffer) :=
  match evictionRun P err r s with
  | (s, .returned before after _) => (s, some (.evicted before after))
  | (s, .raised) => (s, none)

/-- One call of an operation; no outcome is an exception. -/
def stepRun (s : BufferCache Checksum Buffer F) (call : Op Checksum Buffer F × Surroundings) :
    BufferCache Checksum Buffer F × Option (Outcome Buffer) :=
  match call.1 with
  | .register cs b size => ended .done (registerRun P call.2 s cs b size)
  | .get cs => let (s, b) := get s cs; (s, some (.found b))
  | .incref cs arg scratch => increfRun P call.2 s cs arg scratch
  | .decref cs now => decrefRun P err s cs now
  | .increfRefholder cs arg scratch => increfRefholderRun P call.2 s cs arg scratch
  | .decrefRefholder cs now => decrefRefholderRun P err s cs now
  | .tempref cs arg interest fadeFactor fadeInterval now =>
    temprefRun P err call.2 s cs arg interest fadeFactor fadeInterval now
  | .transferWrite cs arg => transferWriteRun P call.2 s cs arg
  | .markScratch cs => (s.addScratch cs, some .done)
  | .purgeScratch cs => let (s, o) := purgeScratch s cs; (s, some o)
  | .runEvictionOnce r => runEvictionOnceRun P err r s
  | .collect cs => ({ s with weakCache := s.weakCache.erase cs }, some .done)

/-! ## §2. The calls that raise with their claim booked. -/

/-- A publishing claim on `cs` has a buffer to write when it has been booked.
A fresh buffer has registered itself first: then the write of a flagged
entry without buffer is over. -/
def writesAfterBooking (s : BufferCache Checksum Buffer F) (cs : Checksum)
    (arg : Option (BufferArg Buffer)) : Bool :=
  ((bufferOf s cs arg).all fun b => decide (P.checksum b = cs)) &&
    match s.strongCache.lookup cs with
    | none => (bufferOf s cs arg).isSome
    | some e =>
      if e.buffer.isSome || arg.any BufferArg.fresh then !e.remoteRegistered
      else (bufferOf s cs arg).isSome

/-- A claim is booked, and its buffer is refused by the writer. -/
def refusedWrite (w : Surroundings) (s : BufferCache Checksum Buffer F) (cs : Checksum)
    (arg : Option (BufferArg Buffer)) : Bool :=
  w.closed && !(w.hashFails && arg.any BufferArg.fresh) && writesAfterBooking P s cs arg

/-- The call gives back the last claim of an entry whose tempref raises, or
takes a claim whose buffer the writer refuses. -/
def slips (s : BufferCache Checksum Buffer F) (call : Op Checksum Buffer F × Surroundings) :
    Bool :=
  match call.1 with
  | .incref cs arg scratch => !scratch && refusedWrite P call.2 s cs arg
  | .increfRefholder cs arg scratch => decide (scratch = some false) && refusedWrite P call.2 s cs arg
  | .decref cs now => (s.strongCache.lookup cs).any fun e =>
      e.manualRefs == 1 && !e.hasRefholderBridge && entryRaises err P.float e now
  | .decrefRefholder cs now => decide (refholderCount s cs = 1) &&
      (s.strongCache.lookup cs).any fun e =>
        e.manualRefs == 0 && entryRaises err P.float e now
  | _ => false

/-! ## §3. What the writer is handed. -/

omit [DecidableEq Checksum] in
theorem handOverRun_returns {w : Surroundings} {s : BufferCache Checksum Buffer F}
    {writeBuffer : Option Buffer} (h : (w.closed && writeBuffer.isSome) = false) :
    handOverRun w s writeBuffer = (s.handOver writeBuffer, true) := by
  unfold handOverRun
  rw [h]
  rfl

omit [DecidableEq Checksum] in
theorem handOverRun_raises {w : Surroundings} {s : BufferCache Checksum Buffer F}
    {writeBuffer : Option Buffer} (h : (w.closed && writeBuffer.isSome) = true) :
    handOverRun w s writeBuffer = (s, false) := by
  unfold handOverRun
  rw [if_pos h]

/-- Registration hands over the buffer that a flagged entry was waiting for. -/
theorem registerLocked_write (s : BufferCache Checksum Buffer F) (cs : Checksum) (b : Buffer)
    (size : Option Nat) :
    (registerLocked P s cs b size).2 = (s.strongCache.lookup cs).bind fun e =>
      if e.buffer.isNone && e.remoteRegistered then some b else none := by
  unfold registerLocked
  set n := size <|> P.lengthAttr b <|> s.sizes.lookup cs with hn
  set t : BufferCache Checksum Buffer F :=
    { s.noteSize cs n with weakCache := (s.noteSize cs n).weakCache.set cs b } with ht
  have hstrong : t.strongCache = s.strongCache := by
    rw [ht]
    cases n <;> rfl
  dsimp only
  rw [hstrong]
  cases s.strongCache.lookup cs <;> rfl

omit [DecidableEq Checksum] in
/-- The buffer that a publishing claim on an entry hands over -/
def handed (core : Option (Option Buffer × Bool)) (buffer : Option Buffer) : Option Buffer :=
  match core with
  | some (some b, flag) => if flag then none else some b
  | _ => buffer

omit [DecidableEq Checksum] in
theorem attach_write (e : StrongEntry Buffer F) (buffer : Option Buffer) (writeRemote : Bool) :
    (attach e buffer writeRemote).2 =
      if writeRemote then handed (some (StrongEntry.core e)) buffer else none := by
  unfold attach handed StrongEntry.core
  cases he : e.buffer <;> cases buffer <;> cases writeRemote <;> cases hr : e.remoteRegistered <;>
    simp [he, hr]

/-- What ensuring an entry hands over, unless it raises `AssertionError` -/
theorem ensureEntry_write (s : BufferCache Checksum Buffer F) (cs : Checksum)
    (arg : Option (BufferArg Buffer)) (scratch : Bool) :
    (ensureEntry P s cs arg scratch).2 =
      if ∃ b, bufferOf s cs arg = some b ∧ P.checksum b ≠ cs then none
      else some (if scratch then none
        else handed (coreAt (getChecksum P s arg) cs) (bufferOf s cs arg)) := by
  unfold ensureEntry
  dsimp only
  change (if ∃ b, bufferOf s cs arg = some b ∧ P.checksum b ≠ cs then (getChecksum P s arg, none)
    else _).2 = _
  by_cases hbad : ∃ b, bufferOf s cs arg = some b ∧ P.checksum b ≠ cs
  · rw [if_pos hbad, if_pos hbad]
  · rw [if_neg hbad, if_neg hbad]
    unfold coreAt
    cases he : (getChecksum P s arg).strongCache.lookup cs with
    | none => rfl
    | some e =>
      show some (attach e (bufferOf s cs arg) (!scratch)).2 = _
      rw [attach_write]
      cases scratch <;> rfl

/-- A claim is refused by the writer exactly if it is booked with a buffer to
write. -/
theorem refusedWrite_iff {w : Surroundings} (hclosed : w.closed = true)
    (s : BufferCache Checksum Buffer F) (cs : Checksum) (arg : Option (BufferArg Buffer)) :
    refusedWrite P w s cs arg = true ↔ (getChecksumRun P w s arg).2 = true ∧
      ∃ b, (ensureEntry P s cs arg false).2 = some (some b) := by
  have hgood : ((bufferOf s cs arg).all fun b => decide (P.checksum b = cs)) = true ↔
      ¬ ∃ b, bufferOf s cs arg = some b ∧ P.checksum b ≠ cs := by
    cases bufferOf s cs arg with
    | none => simp
    | some b => simp
  unfold refusedWrite writesAfterBooking
  rw [ensureEntry_write, hclosed, Bool.true_and]
  by_cases hbad : ∃ b, bufferOf s cs arg = some b ∧ P.checksum b ≠ cs
  · -- the assertion fails first
    have hall : ((bufferOf s cs arg).all fun b => decide (P.checksum b = cs)) = false := by
      rw [Bool.eq_false_iff]
      exact fun h => hgood.mp h hbad
    rw [if_pos hbad, hall]
    simp
  rw [if_neg hbad, hgood.mpr hbad]
  by_cases hfresh : arg.any BufferArg.fresh = true
  · -- the argument registers itself under `cs` first
    obtain ⟨b, harg⟩ : ∃ b, arg = some ⟨b, true⟩ := by
      cases arg with
      | none => cases hfresh
      | some a =>
        obtain ⟨b, fresh⟩ := a
        have htrue : fresh = true := hfresh
        exact ⟨b, by rw [htrue]⟩
    have hb : P.checksum b = cs := by
      by_contra hne
      exact hbad ⟨b, by rw [harg]; rfl, hne⟩
    have hbuffer : bufferOf s cs arg = some b := by
      rw [harg]
      rfl
    have hcore : coreAt (getChecksum P s arg) cs = (coreAt s cs).map fun c => (some b, c.2) := by
      rw [harg]
      show coreAt (register P s (P.checksum b) b _) cs = _
      rw [register_core, hb, if_pos rfl]
    have hrun : (getChecksumRun P w s arg).2 = true ↔ w.hashFails = false ∧
        ∀ e, s.strongCache.lookup cs = some e → ¬ (e.buffer = none ∧ e.remoteRegistered = true) := by
      have hwrite := registerLocked_write P s cs b (some (P.contentLength b))
      have hdef : getChecksumRun P w s (some ⟨b, true⟩) = if w.hashFails then (s, false)
          else handOverRun w (registerLocked P s (P.checksum b) b (some (P.contentLength b))).1
            (registerLocked P s (P.checksum b) b (some (P.contentLength b))).2 := rfl
      rw [harg, hdef, hb, hwrite]
      unfold handOverRun
      rw [hclosed]
      cases s.strongCache.lookup cs with
      | none => cases w.hashFails <;> simp
      | some e =>
        cases w.hashFails <;> cases hbuf : e.buffer <;> cases hflag : e.remoteRegistered <;>
          simp [hbuf, hflag]
    rw [hbuffer, hcore, hfresh, hrun]
    unfold coreAt handed StrongEntry.core
    cases s.strongCache.lookup cs with
    | none => cases w.hashFails <;> simp
    | some e =>
      cases w.hashFails <;> cases hbuf : e.buffer <;> cases hflag : e.remoteRegistered <;>
        simp [hbuf, hflag]
  · -- the state is that of before
    have hsame : getChecksum P s arg = s ∧ (getChecksumRun P w s arg).2 = true := by
      cases arg with
      | none => exact ⟨rfl, rfl⟩
      | some a =>
        obtain ⟨b, fresh⟩ := a
        cases fresh with
        | false => exact ⟨rfl, rfl⟩
        | true => exact absurd rfl hfresh
    rw [hsame.1, hsame.2, Bool.eq_false_iff.mpr hfresh]
    unfold coreAt handed StrongEntry.core
    cases s.strongCache.lookup cs with
    | none => simp [Option.isSome_iff_exists]
    | some e =>
      cases hbuf : e.buffer <;> cases hflag : e.remoteRegistered <;>
        simp [Option.isSome_iff_exists, hbuf, hflag]

/-! ## §4. How a call ends. -/

theorem handOverRun_claims (w : Surroundings) (s : BufferCache Checksum Buffer F)
    (writeBuffer : Option Buffer) : SameClaims s (handOverRun w s writeBuffer).1 := by
  unfold handOverRun
  split
  · exact SameClaims.refl s
  · exact handOver_claims s writeBuffer

theorem getChecksumRun_claims (w : Surroundings) (s : BufferCache Checksum Buffer F)
    (arg : Option (BufferArg Buffer)) : SameClaims s (getChecksumRun P w s arg).1 := by
  unfold getChecksumRun
  split
  · split
    · exact SameClaims.refl s
    · exact (registerLocked_claims P s _ _ _).trans (handOverRun_claims w _ _)
  · exact SameClaims.refl s

/-- How a call ends, against the same operation without exceptions: it returns
the same; or it raises with the claim booked; or it raises and moves no claim. -/
inductive Ends (s : BufferCache Checksum Buffer F) (slip : Bool)
    (base : BufferCache Checksum Buffer F × Outcome Buffer) :
    BufferCache Checksum Buffer F × Option (Outcome Buffer) → Prop where
  | returned (hno : slip = false) : Ends s slip base (base.1, some base.2)
  | booked {s' : BufferCache Checksum Buffer F} (hslip : slip = true)
      (hsame : SameClaims base.1 s') : Ends s slip base (s', none)
  | refused {s' : BufferCache Checksum Buffer F} (hno : slip = false)
      (hsame : SameClaims s s') : Ends s slip base (s', none)

/-- An operation that starts with a change of the scratch record. -/
theorem Ends.after {s t : BufferCache Checksum Buffer F} {slip : Bool}
    {base : BufferCache Checksum Buffer F × Outcome Buffer}
    {r : BufferCache Checksum Buffer F × Option (Outcome Buffer)} (hst : SameClaims s t)
    (h : Ends t slip base r) : Ends s slip base r := by
  cases h with
  | returned hno => exact .returned hno
  | booked hslip hsame => exact .booked hslip hsame
  | refused hno hsame => exact .refused hno (hst.trans hsame)

/-- An operation that books no claim may raise at its write. -/
theorem Ends.unbooked {s : BufferCache Checksum Buffer F} {slip : Bool}
    {base : BufferCache Checksum Buffer F × Outcome Buffer}
    {r : BufferCache Checksum Buffer F × Option (Outcome Buffer)} (hbase : SameClaims s base.1)
    (h : Ends s slip base r) : Ends s false base r := by
  cases h with
  | returned hno => exact .returned rfl
  | booked hslip hsame => exact .refused rfl (hbase.trans hsame)
  | refused hno hsame => exact .refused rfl hsame

/-- An operation that ensures an entry raises with its update done exactly if
it publishes and the writer refuses the buffer. -/
theorem withEntryRun_ends (w : Surroundings) (s : BufferCache Checksum Buffer F) (cs : Checksum)
    (arg : Option (BufferArg Buffer)) (scratch : Bool)
    {updateFails : BufferCache Checksum Buffer F → Bool}
    (hfails : ∀ t, updateFails t = true → scratch = true)
    (update : BufferCache Checksum Buffer F → BufferCache Checksum Buffer F) :
    Ends s (!scratch && refusedWrite P w s cs arg) (withEntry P s cs arg scratch update)
      (withEntryRun P w s cs arg scratch updateFails update) := by
  obtain ⟨hclaims, -⟩ := ensureEntry_claims P s cs arg scratch
  have hwrite := ensureEntry_write P s cs arg scratch
  -- a claim that does not publish writes nothing
  have hslip : (!scratch && refusedWrite P w s cs arg) = true ↔ w.closed = true ∧
      (getChecksumRun P w s arg).2 = true ∧ ∃ b, (ensureEntry P s cs arg scratch).2 = some (some b) := by
    cases scratch with
    | true =>
      rw [hwrite]
      split <;> simp
    | false =>
      by_cases hclosed : w.closed = true
      · rw [← refusedWrite_iff P hclosed]
        simp [hclosed]
      · simp [refusedWrite, hclosed]
  unfold withEntryRun withEntry
  by_cases hhashed : (getChecksumRun P w s arg).2 = true
  · simp only [hhashed, if_true]
    cases hens : ensureEntry P s cs arg scratch with
    | mk t ensured =>
      rw [hens] at hclaims hslip
      cases ensured with
      | none =>
        refine .returned ?_
        rw [Bool.eq_false_iff]
        intro h
        obtain ⟨-, -, b, hb⟩ := hslip.mp h
        cases hb
      | some writeBuffer =>
        by_cases hfail : updateFails t = true
        · -- only a tempref can fail here, and it does not publish
          simp only [hfail, if_true]
          refine .refused ?_ hclaims
          rw [hfails t hfail]
          rfl
        · simp only [hfail, Bool.false_eq_true, if_false]
          by_cases hrefuse : (w.closed && writeBuffer.isSome) = true
          · rw [handOverRun_raises hrefuse]
            obtain ⟨hclosed, hsome⟩ := Bool.and_eq_true_iff.mp hrefuse
            obtain ⟨b, hb⟩ := Option.isSome_iff_exists.mp hsome
            exact .booked (hslip.mpr ⟨hclosed, hhashed, b, by rw [hb]⟩) (fun _ => rfl)
          · rw [handOverRun_returns (Bool.eq_false_iff.mpr hrefuse)]
            refine .returned ?_
            rw [Bool.eq_false_iff]
            intro h
            obtain ⟨hclosed, -, b, hb⟩ := hslip.mp h
            injection hb with hb
            rw [hclosed, hb] at hrefuse
            exact hrefuse rfl
  · simp only [hhashed, Bool.false_eq_true, if_false]
    refine .refused ?_ (getChecksumRun_claims P w s arg)
    rw [Bool.eq_false_iff]
    exact fun h => hhashed (hslip.mp h).2.1

/-- Demotion raises and changes nothing, or is that of the cache model. -/
theorem demoteRun_eq (s : BufferCache Checksum Buffer F) (cs : Checksum) (now : F) :
    demoteRun P err s cs now =
      if (s.strongCache.lookup cs).any fun e =>
          e.manualRefs == 0 && !e.hasRefholderBridge && entryRaises err P.float e now then (s, false)
      else (demote P.float s cs now, true) := by
  unfold demoteRun
  cases he : s.strongCache.lookup cs with
  | none =>
    have hsame : demote P.float s cs now = s := by
      unfold demote
      rw [he]
    rw [hsame]
    rfl
  | some e => rfl

/-- A claim is given back before the demotion raises. -/
theorem demoteRun_ends {s t : BufferCache Checksum Buffer F} {cs : Checksum} {now : F} {slip : Bool}
    (hslip : slip = (t.strongCache.lookup cs).any fun e =>
      e.manualRefs == 0 && !e.hasRefholderBridge && entryRaises err P.float e now) :
    Ends s slip (demote P.float t cs now, .released true)
      (ended (.released true) (demoteRun P err t cs now)) := by
  -- the demotion moves no claim, so the books are those of the state before it
  rw [demoteRun_eq, ← hslip]
  cases hs : slip with
  | true => exact .booked rfl fun k => (demote_claims P.float t cs now k).symm
  | false => exact .returned rfl

theorem decrefRun_ends (s : BufferCache Checksum Buffer F) (cs : Checksum) (now : F)
    (w : Surroundings) :
    Ends s (slips P err s (.decref cs now, w)) (decref P s cs now) (decrefRun P err s cs now) := by
  have hslips : slips P err s (.decref cs now, w) = (s.strongCache.lookup cs).any fun e =>
      e.manualRefs == 1 && !e.hasRefholderBridge && entryRaises err P.float e now := rfl
  rw [hslips]
  unfold decref decrefRun
  cases he : s.strongCache.lookup cs with
  | none => exact .returned rfl
  | some e =>
    by_cases hzero : e.manualRefs = 0
    · simp only [hzero, if_true]
      refine .returned ?_
      rw [Option.any_some, hzero]
      rfl
    · simp only [hzero, if_false]
      apply demoteRun_ends
      have hlook : (s.setEntry cs { e with manualRefs := e.manualRefs - 1 }).strongCache.lookup cs =
          some { e with manualRefs := e.manualRefs - 1 } := Dict.lookup_set_self _ _ _
      -- the count that demotion sees is the lowered one
      have hone : (e.manualRefs == 1) = (e.manualRefs - 1 == 0) := by
        rw [Bool.eq_iff_iff, beq_iff_eq, beq_iff_eq]
        omega
      rw [hlook, Option.any_some, Option.any_some, hone]
      rfl

theorem decrefRefholderRun_ends (s : BufferCache Checksum Buffer F) (cs : Checksum) (now : F)
    (w : Surroundings) :
    Ends s (slips P err s (.decrefRefholder cs now, w)) (decrefRefholder P s cs now)
      (decrefRefholderRun P err s cs now) := by
  have hslips : slips P err s (.decrefRefholder cs now, w) = (decide (refholderCount s cs = 1) &&
      (s.strongCache.lookup cs).any fun e =>
        e.manualRefs == 0 && entryRaises err P.float e now) := rfl
  rw [hslips]
  unfold decrefRefholder decrefRefholderRun
  show Ends s _ (if refholderCount s cs = 0 then _ else if refholderCount s cs = 1 then _ else _)
    (if refholderCount s cs = 0 then _ else if refholderCount s cs = 1 then _ else _)
  by_cases hzero : refholderCount s cs = 0
  · rw [if_pos hzero, if_pos hzero, hzero]
    exact .returned rfl
  rw [if_neg hzero, if_neg hzero]
  by_cases hone : refholderCount s cs = 1
  · -- the bridge goes with the last refholder
    rw [if_pos hone, if_pos hone, decide_eq_true hone, Bool.true_and]
    apply demoteRun_ends
    unfold updateEntry
    have hlook : (s.dropCount cs).strongCache.lookup cs = s.strongCache.lookup cs := rfl
    rw [hlook]
    cases he : s.strongCache.lookup cs with
    | none =>
      dsimp only
      rw [hlook, he]
      rfl
    | some e =>
      have hset : ((s.dropCount cs).setEntry cs { e with hasRefholderBridge := false }).strongCache.lookup
          cs = some { e with hasRefholderBridge := false } := Dict.lookup_set_self _ _ _
      dsimp only
      rw [hset, Option.any_some, Option.any_some, Bool.not_false, Bool.and_true]
      rfl
  · rw [if_neg hone, if_neg hone, decide_eq_false hone, Bool.false_and]
    exact .returned rfl

/-- What the first loop of a pass drops before it raises has no claims. -/
theorem expirePass_claims (r : EvictionReadings Checksum F) (keys : List Checksum) :
    ∀ s : BufferCache Checksum Buffer F, SameClaims s (expirePass P err r keys s).1 := by
  induction keys with
  | nil => intro s; exact SameClaims.refl s
  | cons k keys ih =>
    intro s
    unfold expirePass
    cases s.strongCache.lookup k with
    | none => exact ih s
    | some e =>
      dsimp only
      split
      · -- the tempref at hand raises
        exact SameClaims.refl s
      · exact (expireOne_claims P r s k).trans (ih _)

/-- A pass that raises is in its first loop or scores the candidates. -/
theorem evictionRun_raised {r : EvictionReadings Checksum F} {s s' : BufferCache Checksum Buffer F}
    (h : evictionRun P err r s = (s', .raised)) : SameClaims s s' := by
  have hclaims := expirePass_claims P err r s.strongCache.keyList s
  unfold evictionRun at h
  cases hpass : expirePass P err r s.strongCache.keyList s with
  | mk t done =>
    rw [hpass] at h hclaims
    cases done with
    | false =>
      injection h with h _
      rw [← h]
      exact hclaims
    | true =>
      dsimp only at h
      split at h
      · cases h
      · split at h
        · injection h with h _
          rw [← h]
          exact hclaims
        · cases h

/-- The sizes that a pass reports. -/
theorem runEvictionOnce_outcome (r : EvictionReadings Checksum F)
    (s : BufferCache Checksum Buffer F) :
    (runEvictionOnce P r s).2 = .evicted (strongMemoryUsage (expireTemprefs P r s))
      (strongMemoryUsage (runEvictionOnce P r s).1) := by
  unfold runEvictionOnce
  by_cases hcap : strongMemoryUsage (expireTemprefs P r s) ≤ P.softCap
  · simp [hcap]
  · have husage := evictLoop_usage P r _ _ (candidates_candidates P r (expireTemprefs P r s))
    simp only [hcap, if_false]
    rw [husage, Int.max_eq_right (Int.natCast_nonneg _)]

theorem runEvictionOnceRun_ends (r : EvictionReadings Checksum F)
    (s : BufferCache Checksum Buffer F) :
    Ends s false (runEvictionOnce P r s) (runEvictionOnceRun P err r s) := by
  obtain ⟨hraises, hreturns⟩ := evictionRun_eq P err r s
  unfold runEvictionOnceRun
  cases hpass : passRaises P err r s with
  | true =>
    obtain ⟨s', hs'⟩ := hraises hpass
    rw [hs']
    exact .refused rfl (evictionRun_raised P err hs')
  | false =>
    have hreturned : Ends s false (runEvictionOnce P r s)
        ((runEvictionOnce P r s).1, some (runEvictionOnce P r s).2) := .returned rfl
    rw [runEvictionOnce_outcome] at hreturned
    rw [hreturns hpass]
    exact hreturned

/-- A registration may raise at its write; it books no claim. -/
theorem registerRun_ends (w : Surroundings) (s : BufferCache Checksum Buffer F) (cs : Checksum)
    (b : Buffer) (size : Option Nat) :
    Ends s false (register P s cs b size, .done) (ended .done (registerRun P w s cs b size)) := by
  have hclaims := registerLocked_claims P s cs b size
  unfold register registerRun
  cases hlocked : registerLocked P s cs b size with
  | mk t writeBuffer =>
    rw [hlocked] at hclaims
    dsimp only
    by_cases hrefuse : (w.closed && writeBuffer.isSome) = true
    · rw [handOverRun_raises hrefuse]
      exact .refused rfl hclaims
    · rw [handOverRun_returns (Bool.eq_false_iff.mpr hrefuse)]
      exact .returned rfl

/-- Every call ends in one of the three ways. -/
theorem stepRun_ends (s : BufferCache Checksum Buffer F)
    (call : Op Checksum Buffer F × Surroundings) :
    Ends s (slips P err s call) (step P s call.1) (stepRun P err s call) := by
  obtain ⟨op, w⟩ := call
  cases op with
  | register cs b size => exact registerRun_ends P w s cs b size
  | get cs => exact .returned rfl
  | incref cs arg scratch =>
    have h₀ : SameClaims s (if scratch then s.addScratch cs else s.discardScratch cs) := by
      split <;> exact sameClaims_of_eq rfl rfl
    have hslips : slips P err s (.incref cs arg scratch, w) = (!scratch && refusedWrite P w
        (if scratch then s.addScratch cs else s.discardScratch cs) cs arg) := by
      cases scratch <;> rfl
    rw [hslips]
    exact (withEntryRun_ends P w _ cs arg scratch (fun _ h => by cases h) _).after h₀
  | decref cs now => exact decrefRun_ends P err s cs now w
  | increfRefholder cs arg scratch =>
    have h₀ : SameClaims s (s.noteScratch cs scratch) := by
      rcases scratch with _ | _ | _ <;> exact sameClaims_of_eq rfl rfl
    have hslips : slips P err s (.increfRefholder cs arg scratch, w) =
        (!decide (scratch ≠ some false) && refusedWrite P w (s.noteScratch cs scratch) cs arg) := by
      rcases scratch with _ | _ | _ <;> rfl
    rw [hslips]
    exact (withEntryRun_ends P w _ cs arg _ (fun _ h => by cases h) _).after h₀
  | decrefRefholder cs now => exact decrefRefholderRun_ends P err s cs now w
  | tempref cs arg interest fadeFactor fadeInterval now =>
    exact withEntryRun_ends P w s cs arg true (fun _ _ => rfl) _
  | transferWrite cs arg =>
    have hdiscard : SameClaims s (s.discardScratch cs) := sameClaims_of_eq rfl rfl
    have hends : Ends (s.discardScratch cs) _ (transferWrite P s cs arg)
        (transferWriteRun P w s cs arg) :=
      withEntryRun_ends P w (s.discardScratch cs) cs arg false (fun _ h => by cases h) id
    -- a transferred write books nothing, also when the writer refuses it
    refine Ends.unbooked ?_ (hends.after hdiscard)
    rcases withEntry_cases P (s.discardScratch cs) cs arg false id with
      ⟨-, hsame⟩ | ⟨-, t, e, hst, he, hsame⟩
    · exact hdiscard.trans hsame
    · exact (hdiscard.trans hst).trans hsame
  | markScratch cs => exact .returned rfl
  | purgeScratch cs => exact .returned rfl
  | runEvictionOnce r => exact runEvictionOnceRun_ends P err r s
  | collect cs => exact .returned rfl

/-! ## §5. The ledger of the successful calls. -/

/-- A call that returned what `p` looks for. -/
def succeeded (p : Op Checksum Buffer F × Outcome Buffer → Bool) :
    (Op Checksum Buffer F × Surroundings) × Option (Outcome Buffer) → Bool
  | (call, some outcome) => p (call.1, outcome)
  | (_, none) => false

theorem WellClaimed.of_same {s s' : BufferCache Checksum Buffer F} (h : WellClaimed s)
    (hsame : SameClaims s s') : WellClaimed s' := by
  intro cs
  have hcs := hsame cs
  have hm : manualRefs s' cs = manualRefs s cs := congrArg Claims.manual hcs
  have hb : hasBridge s' cs = hasBridge s cs := congrArg Claims.bridge hcs
  have hh : refholderCount s' cs = refholderCount s cs := congrArg Claims.holders hcs
  rw [hm, hb, hh]
  exact h cs

/-- However a call ends, the bridges stand as they should. -/
theorem stepRun_wellClaimed {s : BufferCache Checksum Buffer F} (hs : WellClaimed s)
    (call : Op Checksum Buffer F × Surroundings) : WellClaimed (stepRun P err s call).1 := by
  have hbase := step_wellClaimed P hs call.1
  have hends := stepRun_ends P err s call
  generalize stepRun P err s call = r at hends
  cases hends with
  | returned hno => exact hbase
  | booked hslip hsame => exact hbase.of_same hsame
  | refused hno hsame => exact hs.of_same hsame

/-- The state after a run of calls on the empty cache -/
def afterRun (calls : List (Op Checksum Buffer F × Surroundings)) :
    BufferCache Checksum Buffer F :=
  Run.exec (stepRun P err) new calls

/-- The calls of a run with their ends -/
def historyRun (calls : List (Op Checksum Buffer F × Surroundings)) :
    List ((Op Checksum Buffer F × Surroundings) × Option (Outcome Buffer)) :=
  Run.trace (stepRun P err) new calls

theorem afterRun_wellClaimed (calls : List (Op Checksum Buffer F × Surroundings)) :
    WellClaimed (afterRun P err calls) :=
  Run.exec_invariant (stepRun P err) WellClaimed (fun _ call hs => stepRun_wellClaimed P err hs call)
    new_wellClaimed calls

omit P err in
/-- The manual references of the ledger: increfs less decrefs -/
def manualBooked (cs : Checksum)
    (history : List ((Op Checksum Buffer F × Surroundings) × Option (Outcome Buffer))) : Int :=
  history.countP (succeeded (isIncref cs)) - history.countP (succeeded (isDecref cs))

omit P err in
/-- The refholders of the ledger: acquisitions less releases -/
def holdersBooked (cs : Checksum)
    (history : List ((Op Checksum Buffer F × Surroundings) × Option (Outcome Buffer))) : Int :=
  history.countP (succeeded (isAcquire cs)) - history.countP (succeeded (isRelease cs))

omit P err in
/-- A call that raised is not in the ledger. -/
theorem booked_raised (cs : Checksum)
    (history : List ((Op Checksum Buffer F × Surroundings) × Option (Outcome Buffer)))
    (call : Op Checksum Buffer F × Surroundings) :
    manualBooked cs (history ++ [(call, none)]) = manualBooked cs history ∧
      holdersBooked cs (history ++ [(call, none)]) = holdersBooked cs history := by
  unfold manualBooked holdersBooked
  simp [succeeded]

omit P err in
/-- A call that returned is in it once. -/
theorem booked_returned (cs : Checksum)
    (history : List ((Op Checksum Buffer F × Surroundings) × Option (Outcome Buffer)))
    (call : Op Checksum Buffer F × Surroundings) (outcome : Outcome Buffer) :
    manualBooked cs (history ++ [(call, some outcome)]) = manualBooked cs history +
      ((if isIncref cs (call.1, outcome) then (1 : Int) else 0) -
        if isDecref cs (call.1, outcome) then 1 else 0) ∧
    holdersBooked cs (history ++ [(call, some outcome)]) = holdersBooked cs history +
      ((if isAcquire cs (call.1, outcome) then (1 : Int) else 0) -
        if isRelease cs (call.1, outcome) then 1 else 0) := by
  have hcount : ∀ p : Op Checksum Buffer F × Outcome Buffer → Bool,
      ((history ++ [(call, some outcome)]).countP (succeeded p) : Int) =
        history.countP (succeeded p) + if p (call.1, outcome) then 1 else 0 := by
    intro p
    rw [List.countP_append, List.countP_singleton]
    have hp : succeeded p (call, some outcome) = p (call.1, outcome) := rfl
    cases h : p (call.1, outcome) <;> simp [hp, h]
  unfold manualBooked holdersBooked
  rw [hcount, hcount, hcount, hcount]
  constructor <;> ring

/-- The counts are those of the ledger. -/
def Balanced (history : List ((Op Checksum Buffer F × Surroundings) × Option (Outcome Buffer)))
    (s : BufferCache Checksum Buffer F) : Prop :=
  ∀ cs, manualRefs s cs = manualBooked cs history ∧ refholderCount s cs = holdersBooked cs history

omit P err in
theorem SameClaims.counts {s s' : BufferCache Checksum Buffer F} (h : SameClaims s s')
    (cs : Checksum) : manualRefs s' cs = manualRefs s cs ∧
      refholderCount s' cs = refholderCount s cs :=
  ⟨congrArg Claims.manual (h cs), congrArg Claims.holders (h cs)⟩

/-- What one operation of the cache model does to the two counts. -/
theorem step_counts {s : BufferCache Checksum Buffer F} (hs : WellClaimed s)
    (op : Op Checksum Buffer F) (cs : Checksum) :
    manualRefs (step P s op).1 cs = manualRefs s cs +
      ((if isIncref cs (op, (step P s op).2) then (1 : Int) else 0) -
        if isDecref cs (op, (step P s op).2) then 1 else 0) ∧
    refholderCount (step P s op).1 cs = refholderCount s cs +
      ((if isAcquire cs (op, (step P s op).2) then (1 : Int) else 0) -
        if isRelease cs (op, (step P s op).2) then 1 else 0) := by
  have hbook := step_books P hs op cs
  obtain ⟨hm, hh⟩ := Claims.book_counts cs (op, (step P s op).2) (claimsAt s cs)
  rw [← hbook] at hm hh
  exact ⟨hm, hh⟩

/-- A call that does not slip keeps the balance. -/
theorem stepRun_balanced {s : BufferCache Checksum Buffer F} (hs : WellClaimed s)
    {history : List ((Op Checksum Buffer F × Surroundings) × Option (Outcome Buffer))}
    (hbal : Balanced history s) {call : Op Checksum Buffer F × Surroundings}
    (hok : slips P err s call = false) :
    Balanced (history ++ [(call, (stepRun P err s call).2)]) (stepRun P err s call).1 := by
  intro cs
  obtain ⟨hm, hh⟩ := hbal cs
  have hends := stepRun_ends P err s call
  generalize stepRun P err s call = r at hends
  cases hends with
  | returned hno =>
    obtain ⟨hm', hh'⟩ := step_counts P hs call.1 cs
    obtain ⟨hbm, hbh⟩ := booked_returned cs history call (step P s call.1).2
    rw [hbm, hbh, hm', hh', hm, hh]
    exact ⟨rfl, rfl⟩
  | booked hslip hsame =>
    rw [hok] at hslip
    cases hslip
  | refused hno hsame =>
    obtain ⟨hm', hh'⟩ := hsame.counts cs
    obtain ⟨hbm, hbh⟩ := booked_raised cs history call
    rw [hbm, hbh, hm', hh']
    exact ⟨hm, hh⟩

/-! ## §6. A slip is a claim that is not in the ledger. -/

theorem withEntry_done {s : BufferCache Checksum Buffer F} {cs : Checksum}
    {arg : Option (BufferArg Buffer)} {scratch : Bool} {writeBuffer : Option Buffer}
    (h : (ensureEntry P s cs arg scratch).2 = some writeBuffer)
    (update : BufferCache Checksum Buffer F → BufferCache Checksum Buffer F) :
    (withEntry P s cs arg scratch update).2 = .done := by
  unfold withEntry
  cases hens : ensureEntry P s cs arg scratch with
  | mk t ensured =>
    rw [hens] at h
    have hensured : ensured = some writeBuffer := h
    rw [hensured]

/-- A claim whose write is refused would have been taken. -/
theorem refusedWrite_done {w : Surroundings} {s : BufferCache Checksum Buffer F} {cs : Checksum}
    {arg : Option (BufferArg Buffer)} (h : refusedWrite P w s cs arg = true)
    (update : BufferCache Checksum Buffer F → BufferCache Checksum Buffer F) :
    (withEntry P s cs arg false update).2 = .done := by
  have hclosed : w.closed = true := by
    unfold refusedWrite at h
    simp only [Bool.and_eq_true] at h
    exact h.1.1
  obtain ⟨-, b, hb⟩ := (refusedWrite_iff P hclosed s cs arg).mp h
  exact withEntry_done P hb update

/-- A call that slips would have been in the ledger, had it returned. -/
theorem slips_kind {s : BufferCache Checksum Buffer F} {op : Op Checksum Buffer F}
    {w : Surroundings} (h : slips P err s (op, w) = true) : ∃ cs,
    isIncref cs (op, (step P s op).2) = true ∨ isDecref cs (op, (step P s op).2) = true ∨
      isAcquire cs (op, (step P s op).2) = true ∨ isRelease cs (op, (step P s op).2) = true := by
  cases op with
  | incref cs arg scratch =>
    obtain ⟨hscratch, hrefuse⟩ := Bool.and_eq_true_iff.mp h
    have hfalse : scratch = false := by simpa using hscratch
    have hdone : (step P s (.incref cs arg scratch)).2 = .done := by
      rw [hfalse]
      exact refusedWrite_done P (s := s.discardScratch cs) hrefuse _
    refine ⟨cs, Or.inl ?_⟩
    rw [hdone]
    simp [isIncref]
  | increfRefholder cs arg scratch =>
    obtain ⟨hscratch, hrefuse⟩ := Bool.and_eq_true_iff.mp h
    have hfalse : scratch = some false := of_decide_eq_true hscratch
    have hdone : (step P s (.increfRefholder cs arg scratch)).2 = .done := by
      rw [hfalse]
      exact refusedWrite_done P (s := s.discardScratch cs) hrefuse _
    refine ⟨cs, Or.inr (Or.inr (Or.inl ?_))⟩
    rw [hdone]
    simp [isAcquire]
  | decref cs now =>
    obtain ⟨e, he, hraise⟩ := (Option.any_eq_true _ _).mp h
    have hone : e.manualRefs = 1 := by
      simp only [Bool.and_eq_true, beq_iff_eq] at hraise
      exact hraise.1.1
    have hout : (step P s (.decref cs now)).2 = .released true := by
      show (decref P s cs now).2 = _
      unfold decref
      rw [he]
      simp [hone]
    refine ⟨cs, Or.inr (Or.inl ?_)⟩
    rw [hout]
    simp [isDecref]
  | decrefRefholder cs now =>
    obtain ⟨hone, hraise⟩ := Bool.and_eq_true_iff.mp h
    have hout : (step P s (.decrefRefholder cs now)).2 = .released true := by
      show (decrefRefholder P s cs now).2 = _
      have hcount : (s.refholderCounts.lookup cs).getD 0 = 1 := of_decide_eq_true hone
      unfold decrefRefholder
      simp [hcount]
    refine ⟨cs, Or.inr (Or.inr (Or.inr ?_))⟩
    rw [hout]
    simp [isRelease]
  -- no other operation slips
  | _ => cases h

omit P err in
/-- An operation that gives a claim back is about one checksum. -/
theorem kind_checksum {op : Op Checksum Buffer F} {cs : Checksum} {outcome : Outcome Buffer}
    (h : isDecref cs (op, outcome) = true ∨ isRelease cs (op, outcome) = true) :
    ∃ now, op = .decref cs now ∨ op = .decrefRefholder cs now := by
  cases op with
  | decref k now =>
    refine ⟨now, Or.inl ?_⟩
    cases outcome with
    | released held => cases held <;> simp_all [isDecref, isRelease]
    | _ => simp [isDecref, isRelease] at h
  | decrefRefholder k now =>
    refine ⟨now, Or.inr ?_⟩
    cases outcome with
    | released held => cases held <;> simp_all [isDecref, isRelease]
    | _ => simp [isDecref, isRelease] at h
  | _ => simp [isDecref, isRelease] at h

/-- A call that slips while it gives a claim back leaves the entry in place. -/
theorem slips_keeps {s : BufferCache Checksum Buffer F} {op : Op Checksum Buffer F}
    {w : Surroundings} (h : slips P err s (op, w) = true) {cs : Checksum} {outcome : Outcome Buffer}
    (hkind : isDecref cs (op, outcome) = true ∨ isRelease cs (op, outcome) = true) :
    ∃ e, (stepRun P err s (op, w)).1.strongCache.lookup cs = some e := by
  obtain ⟨now, hop | hop⟩ := kind_checksum hkind
  · rw [hop] at h ⊢
    obtain ⟨e, he, hraise⟩ := (Option.any_eq_true _ _).mp h
    have hone : e.manualRefs = 1 := by
      simp only [Bool.and_eq_true, beq_iff_eq] at hraise
      exact hraise.1.1
    set t := s.setEntry cs { e with manualRefs := e.manualRefs - 1 } with ht
    have hlook : t.strongCache.lookup cs = some { e with manualRefs := e.manualRefs - 1 } :=
      Dict.lookup_set_self _ _ _
    have hrun : stepRun P err s (.decref cs now, w) =
        ended (.released true) (demoteRun P err t cs now) := by
      show decrefRun P err s cs now = _
      unfold decrefRun
      rw [he]
      simp [hone, ht]
    -- the demotion raises before the entry is dropped
    have hstays : demoteRun P err t cs now = (t, false) := by
      rw [demoteRun_eq, hlook, if_pos]
      show (e.manualRefs - 1 == 0 && !e.hasRefholderBridge && entryRaises err P.float e now) = true
      simpa [hone] using hraise
    rw [hrun, hstays]
    exact ⟨_, hlook⟩
  · rw [hop] at h ⊢
    obtain ⟨hone, hany⟩ := Bool.and_eq_true_iff.mp h
    obtain ⟨e, he, hraise⟩ := (Option.any_eq_true _ _).mp hany
    have hcount : (s.refholderCounts.lookup cs).getD 0 = 1 := of_decide_eq_true hone
    set t := (s.dropCount cs).setEntry cs { e with hasRefholderBridge := false } with ht
    have hlook : t.strongCache.lookup cs = some { e with hasRefholderBridge := false } :=
      Dict.lookup_set_self _ _ _
    have hrun : stepRun P err s (.decrefRefholder cs now, w) =
        ended (.released true) (demoteRun P err t cs now) := by
      have he' : (s.dropCount cs).strongCache.lookup cs = some e := he
      show decrefRefholderRun P err s cs now = _
      unfold decrefRefholderRun updateEntry
      simp [hcount, he', ht]
    have hstays : demoteRun P err t cs now = (t, false) := by
      rw [demoteRun_eq, hlook, if_pos]
      show (e.manualRefs == 0 && true && entryRaises err P.float e now) = true
      simpa using hraise
    rw [hrun, hstays]
    exact ⟨_, hlook⟩

omit P err in
/-- Without an entry there are no claims on it. -/
theorem no_claims {s : BufferCache Checksum Buffer F} {cs : Checksum}
    (h : s.strongCache.lookup cs = none) : manualRefs s cs = 0 ∧ hasBridge s cs = false := by
  simp [manualRefs, hasBridge, h]

omit P err in
/-- Where no claim moved, a claimed entry is still there. -/
theorem SameClaims.keeps {s s' : BufferCache Checksum Buffer F} {cs : Checksum}
    (h : claimsAt s' cs = claimsAt s cs) {e : StrongEntry Buffer F}
    (he : s.strongCache.lookup cs = some e)
    (hclaimed : e.manualRefs ≠ 0 ∨ e.hasRefholderBridge = true) :
    s'.strongCache.lookup cs ≠ none := by
  intro hgone
  obtain ⟨hm, hb⟩ := no_claims hgone
  have hentry := claimsAt_entry he
  rw [← h] at hentry
  have hm' : manualRefs s' cs = e.manualRefs := congrArg Claims.manual hentry
  have hb' : hasBridge s' cs = e.hasRefholderBridge := congrArg Claims.bridge hentry
  rcases hclaimed with hclaimed | hclaimed
  · rw [← hm', hm] at hclaimed
    exact hclaimed rfl
  · rw [← hb', hb] at hclaimed
    cases hclaimed

/-- A claimed entry goes only with the last claim on it, successfully given back. -/
theorem stepRun_removed {s : BufferCache Checksum Buffer F} (hs : WellClaimed s)
    {call : Op Checksum Buffer F × Surroundings} {cs : Checksum} {e : StrongEntry Buffer F}
    (he : s.strongCache.lookup cs = some e)
    (hclaimed : e.manualRefs ≠ 0 ∨ e.hasRefholderBridge = true)
    (hgone : (stepRun P err s call).1.strongCache.lookup cs = none) :
    (succeeded (isDecref cs) (call, (stepRun P err s call).2) = true ∧ e.manualRefs = 1 ∧
      e.hasRefholderBridge = false) ∨
    (succeeded (isRelease cs) (call, (stepRun P err s call).2) = true ∧ refholderCount s cs = 1 ∧
      e.manualRefs = 0) := by
  obtain ⟨op, w⟩ := call
  have hends := stepRun_ends P err s (op, w)
  have hgives : slips P err s (op, w) = true →
      isDecref cs (op, (step P s op).2) = false ∧ isRelease cs (op, (step P s op).2) = false := by
    intro hslip
    by_contra hkind
    rw [not_and_or, Bool.not_eq_false, Bool.not_eq_false] at hkind
    obtain ⟨e', he'⟩ := slips_keeps P err hslip hkind
    rw [hgone] at he'
    cases he'
  generalize stepRun P err s (op, w) = r at hends hgone
  cases hends with
  | returned hno => exact removed_by_release P hs he hclaimed hgone
  | @booked s' hslip hsame =>
    -- it took a claim, and the entry has it now
    exfalso
    obtain ⟨hdecref, hrelease⟩ := hgives hslip
    obtain ⟨hm, hb⟩ := no_claims (s := s') hgone
    have hbook : claimsAt s' cs = (claimsAt s cs).book cs (op, (step P s op).2) := by
      rw [hsame cs]
      exact step_books P hs op cs
    by_cases hincref : isIncref cs (op, (step P s op).2) = true
    · have hcount : manualRefs s' cs = manualRefs s cs + 1 := by
        have hmanual := congrArg Claims.manual hbook
        rw [Claims.book, if_pos hincref] at hmanual
        exact hmanual
      have hnonneg := (hs cs).1
      omega
    by_cases hacquire : isAcquire cs (op, (step P s op).2) = true
    · have hbridge : hasBridge s' cs = true := by
        have hbridge := congrArg Claims.bridge hbook
        rw [Claims.book, if_neg hincref, hdecref, if_neg (by simp), if_pos hacquire] at hbridge
        exact hbridge
      rw [hb] at hbridge
      cases hbridge
    · rw [Claims.book_other (Bool.eq_false_iff.mpr hincref) hdecref
        (Bool.eq_false_iff.mpr hacquire) hrelease] at hbook
      exact SameClaims.keeps hbook he hclaimed hgone
  | refused hno hsame => exact absurd hgone (SameClaims.keeps (hsame cs) he hclaimed)

/-! ## §7. Runs. -/

/-- What holds in every state, whatever raises: a checksum has refholders
exactly while it has a strong entry with the bridge set; counts are not
negative; and no call removes a claimed entry, unless it gives back the last
claim on it. -/
structure Guarded (s : BufferCache Checksum Buffer F) : Prop where
  bridged : ∀ cs, 0 < refholderCount s cs ↔
    ∃ e, s.strongCache.lookup cs = some e ∧ e.hasRefholderBridge = true
  nonneg : ∀ cs, 0 ≤ manualRefs s cs
  kept : ∀ call cs e, s.strongCache.lookup cs = some e →
    (e.manualRefs ≠ 0 ∨ e.hasRefholderBridge = true) →
    (stepRun P err s call).1.strongCache.lookup cs = none →
    (succeeded (isDecref cs) (call, (stepRun P err s call).2) = true ∧ e.manualRefs = 1 ∧
      e.hasRefholderBridge = false) ∨
    (succeeded (isRelease cs) (call, (stepRun P err s call).2) = true ∧ refholderCount s cs = 1 ∧
      e.manualRefs = 0)

theorem WellClaimed.guarded {s : BufferCache Checksum Buffer F} (hs : WellClaimed s) :
    Guarded P err s where
  bridged cs := by
    rw [← (hs cs).2.2]
    unfold hasBridge
    cases s.strongCache.lookup cs with
    | none => simp
    | some e => simp
  nonneg cs := (hs cs).1
  kept _ _ _ he hclaimed hgone := stepRun_removed P err hs he hclaimed hgone

/-- Whatever raises in a run, no claim is forgotten. -/
theorem guarded_after (calls : List (Op Checksum Buffer F × Surroundings)) :
    Guarded P err (afterRun P err calls) :=
  (afterRun_wellClaimed P err calls).guarded P err

/-- Reference accounting after a run: the claims are guarded, and the two
counts are the claims successfully taken less those successfully given back. -/
structure Accounted (calls : List (Op Checksum Buffer F × Surroundings)) : Prop where
  guarded : Guarded P err (afterRun P err calls)
  manual : ∀ cs, manualRefs (afterRun P err calls) cs =
    (historyRun P err calls).countP (succeeded (isIncref cs)) -
      (historyRun P err calls).countP (succeeded (isDecref cs))
  holders : ∀ cs, refholderCount (afterRun P err calls) cs =
    (historyRun P err calls).countP (succeeded (isAcquire cs)) -
      (historyRun P err calls).countP (succeeded (isRelease cs))

theorem accounted_iff (calls : List (Op Checksum Buffer F × Surroundings)) :
    Accounted P err calls ↔ Balanced (historyRun P err calls) (afterRun P err calls) := by
  constructor
  · intro h cs
    exact ⟨h.manual cs, h.holders cs⟩
  · intro h
    exact ⟨guarded_after P err calls, fun cs => (h cs).1, fun cs => (h cs).2⟩

/-- A call that slips upsets the balance. -/
theorem slips_unbalances {s : BufferCache Checksum Buffer F} (hs : WellClaimed s)
    {history : List ((Op Checksum Buffer F × Surroundings) × Option (Outcome Buffer))}
    (hbal : Balanced history s) {call : Op Checksum Buffer F × Surroundings}
    (hslip : slips P err s call = true) :
    ¬ Balanced (history ++ [(call, (stepRun P err s call).2)]) (stepRun P err s call).1 := by
  intro hbal'
  obtain ⟨op, w⟩ := call
  obtain ⟨cs, hkind⟩ := slips_kind P err hslip
  have hcounts := step_counts P hs op cs
  have hends := stepRun_ends P err s (op, w)
  rw [hslip] at hends
  generalize stepRun P err s (op, w) = r at hends hbal'
  cases hends with
  | returned hno => cases hno
  | refused hno hsame => cases hno
  | @booked s' _ hsame =>
    -- the ledger is that of before, and the claim has moved
    obtain ⟨hm, hh⟩ := hbal cs
    obtain ⟨hm', hh'⟩ := hbal' cs
    obtain ⟨hrm, hrh⟩ := booked_raised cs history (op, w)
    obtain ⟨hsm, hsh⟩ := hsame.counts cs
    obtain ⟨hincref, hdecref, hacquire⟩ := one_kind cs (op, (step P s op).2)
    rw [hrm, ← hm] at hm'
    rw [hrh, ← hh] at hh'
    rw [← hsm, ← hsh, hm', hh'] at hcounts
    obtain ⟨hmanual, hholders⟩ := hcounts
    rcases hkind with h | h | h | h
    · rw [if_pos h, (hincref h).1] at hmanual
      simp at hmanual
    · rw [if_pos h] at hmanual
      by_cases hi : isIncref cs (op, (step P s op).2) = true
      · rw [(hincref hi).1] at h
        cases h
      · simp [hi] at hmanual
    · rw [if_pos h, hacquire h] at hholders
      simp at hholders
    · rw [if_pos h] at hholders
      by_cases ha : isAcquire cs (op, (step P s op).2) = true
      · rw [hacquire ha] at h
        cases h
      · simp [ha] at hholders

/-- The accounting holds in every state that a run reaches exactly if no call
of the run raises with its claim booked. -/
theorem referenceAccounting (calls : List (Op Checksum Buffer F × Surroundings)) :
    (∀ first later, calls = first ++ later → Accounted P err first) ↔
      Run.StepsMeet (stepRun P err) (fun _ s call => slips P err s call = false) new calls := by
  constructor
  · intro h first call later heq
    have hbefore := (accounted_iff P err first).mp (h first (call :: later) heq)
    have hafter := (accounted_iff P err (first ++ [call])).mp (h (first ++ [call]) later (by
      rw [heq]
      simp))
    unfold historyRun afterRun at hafter
    rw [Run.trace_snoc, Run.exec_snoc] at hafter
    by_contra hslip
    have hslip' : slips P err (afterRun P err first) call = true := Bool.not_eq_false _ ▸ hslip
    exact slips_unbalances P err (afterRun_wellClaimed P err first) hbefore hslip' hafter
  · intro h first later heq
    have hfirst : Run.StepsMeet (stepRun P err) (fun _ s call => slips P err s call = false) new
        first := by
      intro before call after hbefore
      refine h before call (after ++ later) ?_
      rw [heq, hbefore]
      simp
    have hrun := Run.exec_traced_invariant (stepRun P err)
      (fun _ s call => slips P err s call = false) (fun history s => WellClaimed s ∧ Balanced history s)
      ⟨new_wellClaimed, fun cs => by simp [manualRefs, refholderCount, manualBooked, holdersBooked, new]⟩
      (fun history s call hinv hok => ⟨stepRun_wellClaimed P err hinv.1 call,
        stepRun_balanced P err hinv.1 hinv.2 hok⟩) first hfirst
    exact (accounted_iff P err first).mpr hrun.2

/-- A tempref of the default parameters, and a manual reference that is given
back forty minutes later -/
def fadedDecref : List (Op Nat Nat ℚ × Surroundings) :=
  [(.tempref 1 none 128 2 2 0, ⟨false, false⟩), (.incref 1 none true, ⟨false, false⟩),
    (.decref 1 2400, ⟨false, false⟩)]

/-- The decref raises: there was one incref and no successful decref, and the
count is zero. -/
theorem decref_unaccounted : ¬ Accounted rationalCache ratErrors fadedDecref := by
  intro h
  have hmanual := h.manual 1
  have hcount : manualRefs (afterRun rationalCache ratErrors fadedDecref) 1 = 0 := by decide +kernel
  have hincrefs : (historyRun rationalCache ratErrors fadedDecref).countP
      (succeeded (isIncref 1)) = 1 := by decide +kernel
  have hdecrefs : (historyRun rationalCache ratErrors fadedDecref).countP
      (succeeded (isDecref 1)) = 0 := by decide +kernel
  rw [hcount, hincrefs, hdecrefs] at hmanual
  cases hmanual

end SeamlessCore.BufferCache
