/-
  SeamlessCore.Cache.BufferCache — the central buffer cache.

  A buffer lives in a weak store (dropped when nobody else holds it) or in a
  strong store, under three kinds of claims: manual references, the bridge
  of the refholders, and one tempref with decaying interest.  Handing a
  buffer to the background writer is recorded in the log `written`.

  Floating-point numbers enter through `FloatOps`, clock readings and costs
  through the arguments of the operations: nothing depends on their values.
  The bookkeeping of `eviction_cost` and the memory-pressure warning are not
  part of the state; the session is open, so the writer accepts every buffer.

  Source: `seamless/caching/buffer_cache.py`.
-/
import SeamlessCore.Lib.Dict
import SeamlessCore.Lib.Run

namespace SeamlessCore

/-! ## §1. Parameters. -/

/-- The floating-point operations that the cache uses. -/
structure FloatOps (F : Type) where
  ofInt : Int → F
  add : F → F → F
  sub : F → F → F
  mul : F → F → F
  div : F → F → F
  pow : F → F → F
  lt : F → F → Bool
  le : F → F → Bool
  isInf : F → Bool
  inf : F

/-- What the cache knows of checksums and buffers, and its soft cap. -/
structure CacheParams (Checksum Buffer F : Type) where
  /-- `buffer.get_checksum()` -/
  checksum : Buffer → Checksum
  /-- `len(buffer.content)` -/
  contentLength : Buffer → Nat
  /-- `getattr(buffer, "length", None)` -/
  lengthAttr : Buffer → Option Nat
  float : FloatOps F
  softCap : Nat

/-- A buffer passed to an operation; `fresh` says that its checksum has not
been calculated yet. -/
structure BufferArg (Buffer : Type) where
  buffer : Buffer
  fresh : Bool
  deriving DecidableEq

/-! ## §2. State. -/

/-- `TempRef` -/
structure TempRef (F : Type) where
  interest : F
  fadeFactor : F
  fadeInterval : F
  lastRefreshed : F

/-- `StrongEntry` -/
structure StrongEntry (Buffer F : Type) where
  buffer : Option Buffer
  size : Option Nat
  manualRefs : Int
  hasRefholderBridge : Bool
  tempref : Option (TempRef F)
  temprefScratch : Bool
  remoteRegistered : Bool

/-- `BufferCache`, with the buffers handed to the writer so far. -/
structure BufferCache (Checksum Buffer F : Type) where
  weakCache : Dict Checksum Buffer
  strongCache : Dict Checksum (StrongEntry Buffer F)
  sizes : Dict Checksum Nat
  scratchRefs : Dict Checksum Unit
  refholderCounts : Dict Checksum Int
  written : List Buffer

/-- `BufferCache.__init__` -/
def BufferCache.new {Checksum Buffer F : Type} : BufferCache Checksum Buffer F where
  weakCache := ∅
  strongCache := ∅
  sizes := ∅
  scratchRefs := ∅
  refholderCounts := ∅
  written := []

variable {Checksum Buffer F : Type} [DecidableEq Checksum]

namespace BufferCache

/-- `self.strong_cache[checksum] = entry`, or a mutation of that entry. -/
def setEntry (s : BufferCache Checksum Buffer F) (cs : Checksum) (e : StrongEntry Buffer F) :
    BufferCache Checksum Buffer F :=
  { s with strongCache := s.strongCache.set cs e }

/-- `buffer_writer.register(write_buffer)`, unless it is `None`. -/
def handOver (s : BufferCache Checksum Buffer F) (writeBuffer : Option Buffer) :
    BufferCache Checksum Buffer F :=
  { s with written := s.written ++ writeBuffer.toList }

/-- `self._sizes[checksum] = size`, unless `size` is `None`. -/
def noteSize (s : BufferCache Checksum Buffer F) (cs : Checksum) (size : Option Nat) :
    BufferCache Checksum Buffer F :=
  match size with
  | none => s
  | some n => { s with sizes := s.sizes.set cs n }

/-! ## §3. Temprefs and demotion. -/

/-- `TEMPREF_MINIMAL_INTEREST` -/
def temprefMinimalInterest (f : FloatOps F) : F := f.div (f.ofInt 1) (f.ofInt 128)

/-- `TempRef.current_interest`, at the clock reading `now` -/
def currentInterest (f : FloatOps F) (t : TempRef F) (now : F) : F :=
  let elapsed := f.sub now t.lastRefreshed
  if f.le elapsed (f.ofInt 0) || f.le t.fadeInterval (f.ofInt 0) then t.interest
  else f.div t.interest (f.pow t.fadeFactor (f.div elapsed t.fadeInterval))

/-- `StrongEntry.interest` -/
def entryInterest (f : FloatOps F) (e : StrongEntry Buffer F) (now : F) : F :=
  let i := f.ofInt (e.manualRefs + if e.hasRefholderBridge then 1 else 0)
  match e.tempref with
  | none => i
  | some t => f.add i (currentInterest f t now)

/-- `_has_live_tempref_locked` -/
def hasLiveTempref (f : FloatOps F) (e : StrongEntry Buffer F) (now : F) : Bool :=
  match e.tempref with
  | none => false
  | some t => f.le (temprefMinimalInterest f) (currentInterest f t now)

/-- `_can_demote_locked` -/
def canDemote (f : FloatOps F) (e : StrongEntry Buffer F) (now : F) : Bool :=
  e.manualRefs == 0 && !e.hasRefholderBridge && !hasLiveTempref f e now

/-- `_eviction_protected_locked` -/
def evictionProtected (e : StrongEntry Buffer F) : Bool :=
  e.manualRefs != 0 || e.hasRefholderBridge

/-- `_demote_locked(checksum, entry)` on the entry in the strong store -/
def demote (f : FloatOps F) (s : BufferCache Checksum Buffer F) (cs : Checksum) (now : F) :
    BufferCache Checksum Buffer F :=
  match s.strongCache.lookup cs with
  | none => s
  | some e =>
    if canDemote f e now then
      { s with
        weakCache := match e.buffer with
          | none => s.weakCache
          | some b => s.weakCache.set cs b
        strongCache := s.strongCache.erase cs }
    else s

/-! ## §4. Registration and lookup. -/

variable (P : CacheParams Checksum Buffer F)

/-- The locked part of `register`: the new state and the buffer to write. -/
def registerLocked (s : BufferCache Checksum Buffer F) (cs : Checksum) (b : Buffer)
    (size : Option Nat) : BufferCache Checksum Buffer F × Option Buffer :=
  let size := size <|> P.lengthAttr b <|> s.sizes.lookup cs
  let s := s.noteSize cs size
  let s := { s with weakCache := s.weakCache.set cs b }
  match s.strongCache.lookup cs with
  | none => (s, none)
  | some e =>
    let writeBuffer := if e.buffer.isNone && e.remoteRegistered then some b else none
    (s.setEntry cs { e with buffer := some b, size := size }, writeBuffer)

/-- `register(checksum, buffer, size)` -/
def register (s : BufferCache Checksum Buffer F) (cs : Checksum) (b : Buffer) (size : Option Nat) :
    BufferCache Checksum Buffer F :=
  let (s, writeBuffer) := registerLocked P s cs b size
  s.handOver writeBuffer

omit P in
/-- `get(checksum)` -/
def get (s : BufferCache Checksum Buffer F) (cs : Checksum) :
    BufferCache Checksum Buffer F × Option Buffer :=
  match s.strongCache.lookup cs with
  | none => (s, s.weakCache.lookup cs)
  | some e =>
    match e.buffer with
    | some b => (s, some b)
    | none =>
      match s.weakCache.lookup cs with
      | none => (s, none)
      | some b => (s.setEntry cs { e with buffer := some b }, some b)

/-! ## §5. Entries on demand. -/

/-- `buffer.get_checksum()` on an argument: a fresh buffer registers itself. -/
def getChecksum (s : BufferCache Checksum Buffer F) (arg : Option (BufferArg Buffer)) :
    BufferCache Checksum Buffer F :=
  match arg with
  | some ⟨b, true⟩ => register P s (P.checksum b) b (some (P.contentLength b))
  | _ => s

omit P [DecidableEq Checksum] in
/-- What `_ensure_entry_locked` makes of an existing entry, and the buffer to
write. -/
def attach (e : StrongEntry Buffer F) (buffer : Option Buffer) (writeRemote : Bool) :
    StrongEntry Buffer F × Option Buffer :=
  -- `elif entry.buffer is None and buffer is not None`
  let (e, writeBuffer) :=
    match e.buffer, buffer with
    | none, some b =>
      if writeRemote then
        ({ e with buffer := some b, remoteRegistered := true }, some b)
      else ({ e with buffer := some b }, none)
    | _, _ => (e, none)
  if writeRemote && !e.remoteRegistered then
    ({ e with remoteRegistered := true }, e.buffer <|> writeBuffer)
  else (e, writeBuffer)

/-- `_ensure_entry_locked(checksum, buffer, scratch)`; `none` in the place of
the buffer to write is its `AssertionError`. -/
def ensureEntry (s : BufferCache Checksum Buffer F) (cs : Checksum)
    (arg : Option (BufferArg Buffer)) (scratch : Bool) :
    BufferCache Checksum Buffer F × Option (Option Buffer) :=
  let buffer := (arg.map BufferArg.buffer) <|> s.weakCache.lookup cs
  let s := getChecksum P s arg
  if ∃ b, buffer = some b ∧ P.checksum b ≠ cs then (s, none)
  else
    match s.strongCache.lookup cs with
    | none =>
      let size := s.sizes.lookup cs <|> buffer.bind P.lengthAttr
      let s := s.noteSize cs size
      let e : StrongEntry Buffer F :=
        { buffer := buffer, size := size, manualRefs := 0, hasRefholderBridge := false,
          tempref := none, temprefScratch := false, remoteRegistered := !scratch }
      (s.setEntry cs e, some (if scratch then none else buffer))
    | some e =>
      let (e, writeBuffer) := attach e buffer (!scratch)
      (s.setEntry cs e, some writeBuffer)

/-! ## §6. Claims. -/

omit P in
/-- A mutation of the entry that the operation holds. -/
def updateEntry (s : BufferCache Checksum Buffer F) (cs : Checksum)
    (update : StrongEntry Buffer F → StrongEntry Buffer F) : BufferCache Checksum Buffer F :=
  match s.strongCache.lookup cs with
  | none => s
  | some e => s.setEntry cs (update e)

omit P in
/-- `self._scratch_refs.add(checksum)` -/
def addScratch (s : BufferCache Checksum Buffer F) (cs : Checksum) :
    BufferCache Checksum Buffer F :=
  { s with scratchRefs := s.scratchRefs.set cs () }

omit P in
/-- `self._scratch_refs.discard(checksum)` -/
def discardScratch (s : BufferCache Checksum Buffer F) (cs : Checksum) :
    BufferCache Checksum Buffer F :=
  { s with scratchRefs := s.scratchRefs.erase cs }

omit P in
/-- `self.refholder_counts[checksum] = count` -/
def setCount (s : BufferCache Checksum Buffer F) (cs : Checksum) (count : Int) :
    BufferCache Checksum Buffer F :=
  { s with refholderCounts := s.refholderCounts.set cs count }

omit P in
/-- `del self.refholder_counts[checksum]` -/
def dropCount (s : BufferCache Checksum Buffer F) (cs : Checksum) :
    BufferCache Checksum Buffer F :=
  { s with refholderCounts := s.refholderCounts.erase cs }

omit P in
/-- What `incref_refholder` does to the entry it ensured. -/
def addHolder (s : BufferCache Checksum Buffer F) (cs : Checksum) :
    BufferCache Checksum Buffer F :=
  let count := (s.refholderCounts.lookup cs).getD 0
  let s := if count = 0 then s.updateEntry cs fun e => { e with hasRefholderBridge := true }
    else s
  s.setCount cs (count + 1)

/-- What an operation returns. -/
inductive Outcome (Buffer : Type) where
  | done
  | found (buffer : Option Buffer)
  | released (held : Bool)
  | purged (count : Nat)
  | evicted (before after : Int)
  | assertionError

/-- An operation that ensures an entry, updates it, and lets go of the lock
before it writes. -/
def withEntry (s : BufferCache Checksum Buffer F) (cs : Checksum)
    (arg : Option (BufferArg Buffer)) (scratch : Bool)
    (update : BufferCache Checksum Buffer F → BufferCache Checksum Buffer F) :
    BufferCache Checksum Buffer F × Outcome Buffer :=
  match ensureEntry P s cs arg scratch with
  | (s, none) => (s, .assertionError)
  | (s, some writeBuffer) => ((update s).handOver writeBuffer, .done)

/-- `incref(checksum, buffer, scratch)` -/
def incref (s : BufferCache Checksum Buffer F) (cs : Checksum)
    (arg : Option (BufferArg Buffer)) (scratch : Bool) :
    BufferCache Checksum Buffer F × Outcome Buffer :=
  let s := if scratch then s.addScratch cs else s.discardScratch cs
  withEntry P s cs arg scratch fun s =>
    s.updateEntry cs fun e => { e with manualRefs := e.manualRefs + 1 }

/-- `decref(checksum)` -/
def decref (s : BufferCache Checksum Buffer F) (cs : Checksum) (now : F) :
    BufferCache Checksum Buffer F × Outcome Buffer :=
  match s.strongCache.lookup cs with
  | none => (s, .released false)
  | some e =>
    if e.manualRefs = 0 then (s, .released false)
    else
      let s := s.setEntry cs { e with manualRefs := e.manualRefs - 1 }
      (demote P.float s cs now, .released true)

/-- `incref_refholder(checksum, buffer, scratch)`; `none` is the neutral claim. -/
def increfRefholder (s : BufferCache Checksum Buffer F) (cs : Checksum)
    (arg : Option (BufferArg Buffer)) (scratch : Option Bool) :
    BufferCache Checksum Buffer F × Outcome Buffer :=
  let s := match scratch with
    | some true => s.addScratch cs
    | some false => s.discardScratch cs
    | none => s
  withEntry P s cs arg (scratch ≠ some false) fun s => s.addHolder cs

/-- `decref_refholder(checksum)` -/
def decrefRefholder (s : BufferCache Checksum Buffer F) (cs : Checksum) (now : F) :
    BufferCache Checksum Buffer F × Outcome Buffer :=
  let count := (s.refholderCounts.lookup cs).getD 0
  if count = 0 then (s, .released false)
  else if count = 1 then
    let s := (s.dropCount cs).updateEntry cs fun e => { e with hasRefholderBridge := false }
    (demote P.float s cs now, .released true)
  else (s.setCount cs (count - 1), .released true)

/-- The tempref that `tempref` leaves on an entry. -/
def refreshedTempref (f : FloatOps F) (old : Option (TempRef F))
    (interest fadeFactor fadeInterval now : F) : TempRef F :=
  match old with
  | none =>
    { interest := interest, fadeFactor := fadeFactor, fadeInterval := fadeInterval,
      lastRefreshed := now }
  | some t =>
    if f.lt t.interest interest ||
        f.lt (f.div t.fadeFactor t.fadeInterval) (f.div fadeFactor fadeInterval) then
      { interest := interest, fadeFactor := fadeFactor, fadeInterval := fadeInterval,
        lastRefreshed := now }
    else { t with lastRefreshed := now }

/-- `tempref(checksum, buffer, interest, fade_factor, fade_interval)` -/
def tempref (s : BufferCache Checksum Buffer F) (cs : Checksum)
    (arg : Option (BufferArg Buffer)) (interest fadeFactor fadeInterval now : F) :
    BufferCache Checksum Buffer F × Outcome Buffer :=
  withEntry P s cs arg true fun s =>
    s.updateEntry cs fun e =>
      { e with
        tempref := some (refreshedTempref P.float e.tempref interest fadeFactor fadeInterval now)
        temprefScratch := true }

/-- `transfer_write(checksum, buffer)` -/
def transferWrite (s : BufferCache Checksum Buffer F) (cs : Checksum)
    (arg : Option (BufferArg Buffer)) : BufferCache Checksum Buffer F × Outcome Buffer :=
  withEntry P (s.discardScratch cs) cs arg false id

/-! ## §7. Scratch purge and eviction. -/

/-- One turn of the loop of `purge_scratch`. -/
def purgeOne (s : BufferCache Checksum Buffer F) (cs : Checksum) :
    BufferCache Checksum Buffer F × Nat :=
  match s.strongCache.lookup cs with
  | none =>
    if cs ∈ s.weakCache then ({ s with weakCache := s.weakCache.erase cs }, 1) else (s, 0)
  | some e =>
    if e.manualRefs ≠ 0 ∨ e.hasRefholderBridge then (s, 0)
    else if e.tempref.isNone || !e.temprefScratch then (s, 0)
    else
      ({ s with
        weakCache := s.weakCache.erase cs
        strongCache := s.strongCache.erase cs }, 1)

/-- `purge_scratch(checksum)` -/
def purgeScratch (s : BufferCache Checksum Buffer F) (cs : Option Checksum) :
    BufferCache Checksum Buffer F × Outcome Buffer :=
  let checksums := match cs with
    | some cs => [cs]
    | none => s.scratchRefs.keyList
  let (s, purged) := checksums.foldl
    (fun (s, purged) cs => let (s, n) := purgeOne s cs; (s, purged + n)) (s, 0)
  (s, .purged purged)

/-- What an eviction pass reads of the outside world: the clock, when it looks
at the entry of a checksum for expiry and for its score, and the costs. -/
structure EvictionReadings (Checksum F : Type) where
  expiryClock : Checksum → F
  scoreClock : Checksum → F
  /-- `eviction_cost.get_cost(checksum, buffer_length)` -/
  cost : Checksum → Nat → F

/-- `_strong_memory_usage` -/
def strongMemoryUsage (s : BufferCache Checksum Buffer F) : Nat :=
  (s.strongCache.items.map fun (_, e) => e.size.getD 0).sum

/-- `_candidate_score` -/
def candidateScore (r : EvictionReadings Checksum F) (cs : Checksum)
    (e : StrongEntry Buffer F) : F :=
  match e.size with
  | none => P.float.inf
  | some n =>
    if n = 0 then P.float.inf
    else
      let sizeGb := P.float.div (P.float.ofInt n) (P.float.ofInt (1024 ^ 3))
      if P.float.le sizeGb (P.float.ofInt 0) then P.float.inf
      else
        let cost := r.cost cs n
        if P.float.isInf cost then P.float.inf
        else
          let loss := P.float.mul cost (entryInterest P.float e (r.scoreClock cs))
          P.float.div loss sizeGb

/-- One turn of the first loop of `run_eviction_once`: an expired tempref goes. -/
def expireOne (r : EvictionReadings Checksum F) (s : BufferCache Checksum Buffer F)
    (cs : Checksum) : BufferCache Checksum Buffer F :=
  match s.strongCache.lookup cs with
  | none => s
  | some e =>
    match e.tempref with
    | none => s
    | some t =>
      let now := r.expiryClock cs
      if P.float.lt (currentInterest P.float t now) (temprefMinimalInterest P.float) then
        demote P.float (s.setEntry cs { e with tempref := none }) cs now
      else s

/-- The first loop of `run_eviction_once`. -/
def expireTemprefs (r : EvictionReadings Checksum F) (s : BufferCache Checksum Buffer F) :
    BufferCache Checksum Buffer F :=
  s.strongCache.keyList.foldl (expireOne P r) s

/-- The candidates of the second loop, lowest score first. -/
def candidates (r : EvictionReadings Checksum F) (s : BufferCache Checksum Buffer F) :
    List (F × Checksum) :=
  ((s.strongCache.items.filter fun (_, e) => !evictionProtected e).map
    fun (cs, e) => (candidateScore P r cs e, cs)).mergeSort
      fun a b => !P.float.lt b.1 a.1

/-- The second loop of `run_eviction_once`; `current` is the memory in use. -/
def evictLoop (r : EvictionReadings Checksum F) :
    Int → List (F × Checksum) → BufferCache Checksum Buffer F →
      Int × BufferCache Checksum Buffer F
  | current, [], s => (current, s)
  | current, (score, cs) :: rest, s =>
    if current ≤ P.softCap then (current, s)
    else if P.float.isInf score then evictLoop r current rest s
    else
      match s.strongCache.lookup cs with
      | none => evictLoop r current rest s
      | some e =>
        let s := demote P.float (s.setEntry cs { e with tempref := none }) cs (r.scoreClock cs)
        evictLoop r (current - (e.size.getD 0 : Nat)) rest s

/-- `run_eviction_once()` -/
def runEvictionOnce (r : EvictionReadings Checksum F) (s : BufferCache Checksum Buffer F) :
    BufferCache Checksum Buffer F × Outcome Buffer :=
  let s := expireTemprefs P r s
  let before := strongMemoryUsage s
  if before ≤ P.softCap then (s, .evicted before before)
  else
    let (current, s) := evictLoop P r before (candidates P r s) s
    (s, .evicted before (max 0 current))

/-! ## §8. The cache as a machine. -/

/-- The operations, with what they read of the clock.  `collect` is the
environment: a buffer of the weak store is garbage-collected. -/
inductive Op (Checksum Buffer F : Type) where
  | register (cs : Checksum) (b : Buffer) (size : Option Nat)
  | get (cs : Checksum)
  | incref (cs : Checksum) (arg : Option (BufferArg Buffer)) (scratch : Bool)
  | decref (cs : Checksum) (now : F)
  | increfRefholder (cs : Checksum) (arg : Option (BufferArg Buffer)) (scratch : Option Bool)
  | decrefRefholder (cs : Checksum) (now : F)
  | tempref (cs : Checksum) (arg : Option (BufferArg Buffer))
      (interest fadeFactor fadeInterval now : F)
  | transferWrite (cs : Checksum) (arg : Option (BufferArg Buffer))
  | markScratch (cs : Checksum)
  | purgeScratch (cs : Option Checksum)
  | runEvictionOnce (r : EvictionReadings Checksum F)
  | collect (cs : Checksum)

/-- One operation. -/
def step (s : BufferCache Checksum Buffer F) :
    Op Checksum Buffer F → BufferCache Checksum Buffer F × Outcome Buffer
  | .register cs b size => (register P s cs b size, .done)
  | .get cs => let (s, b) := get s cs; (s, .found b)
  | .incref cs arg scratch => incref P s cs arg scratch
  | .decref cs now => decref P s cs now
  | .increfRefholder cs arg scratch => increfRefholder P s cs arg scratch
  | .decrefRefholder cs now => decrefRefholder P s cs now
  | .tempref cs arg interest fadeFactor fadeInterval now =>
    tempref P s cs arg interest fadeFactor fadeInterval now
  | .transferWrite cs arg => transferWrite P s cs arg
  | .markScratch cs => (s.addScratch cs, .done)
  | .purgeScratch cs => purgeScratch s cs
  | .runEvictionOnce r => runEvictionOnce P r s
  | .collect cs => ({ s with weakCache := s.weakCache.erase cs }, .done)

/-- `is_scratch_ref(checksum)` -/
def isScratchRef (s : BufferCache Checksum Buffer F) (cs : Checksum) : Bool :=
  decide (cs ∈ s.scratchRefs)

end BufferCache

end SeamlessCore
