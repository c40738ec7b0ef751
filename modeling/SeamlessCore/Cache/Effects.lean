/-
  SeamlessCore.Cache.Effects — what the operations do to buffers.

  The publication of a buffer depends on the core of its strong entry: the
  buffer, if it has arrived, and the flag that it is to be written.  The file
  says once for every helper what it does to the cores, to the weak store and
  to the log of the writer; the invariants of the next file are read off
  here and never unfold an operation.

  Main results:
    * `register_core`, `withEntry_stores` — registration, and ensured entries;
    * `purgeScratch_lookup`, `runEvictionOnce_lookup` — exactly which entries go;
    * `Shrinks` — demotion, purge and eviction do nothing else.
-/
import SeamlessCore.Cache.Accounting

namespace SeamlessCore.BufferCache

variable {Checksum Buffer F : Type} [DecidableEq Checksum]

/-! ## §1. The core of an entry. -/

/-- The buffer of an entry, and whether it is to be written. -/
def StrongEntry.core (e : StrongEntry Buffer F) : Option Buffer × Bool :=
  (e.buffer, e.remoteRegistered)

/-- The core of the strong entry of a checksum. -/
def coreAt (s : BufferCache Checksum Buffer F) (cs : Checksum) : Option (Option Buffer × Bool) :=
  (s.strongCache.lookup cs).map StrongEntry.core

theorem coreAt_setEntry (s : BufferCache Checksum Buffer F) (cs k : Checksum)
    (e : StrongEntry Buffer F) :
    coreAt (s.setEntry cs e) k = if k = cs then some (StrongEntry.core e) else coreAt s k := by
  unfold coreAt setEntry
  rw [Dict.lookup_set]
  split <;> rfl

theorem coreAt_updateEntry {update : StrongEntry Buffer F → StrongEntry Buffer F}
    (h : ∀ e, StrongEntry.core (update e) = StrongEntry.core e)
    (s : BufferCache Checksum Buffer F) (cs k : Checksum) :
    coreAt (s.updateEntry cs update) k = coreAt s k := by
  unfold updateEntry
  cases he : s.strongCache.lookup cs with
  | none => rfl
  | some e =>
    show coreAt (s.setEntry cs (update e)) k = coreAt s k
    rw [coreAt_setEntry, h]
    by_cases hk : k = cs
    · rw [if_pos hk, hk, coreAt, he]
      rfl
    · rw [if_neg hk]

/-- The same cores, weak store and log. -/
structure SameStores (s s' : BufferCache Checksum Buffer F) : Prop where
  core : ∀ k, coreAt s' k = coreAt s k
  weak : s'.weakCache = s.weakCache
  written : s'.written = s.written

theorem SameStores.refl (s : BufferCache Checksum Buffer F) : SameStores s s :=
  ⟨fun _ => rfl, rfl, rfl⟩

theorem SameStores.trans {s t u : BufferCache Checksum Buffer F} (h : SameStores s t)
    (h' : SameStores t u) : SameStores s u :=
  ⟨fun k => (h'.core k).trans (h.core k), h'.weak.trans h.weak, h'.written.trans h.written⟩

theorem noteSize_stores (s : BufferCache Checksum Buffer F) (cs : Checksum)
    (size : Option Nat) : SameStores s (s.noteSize cs size) := by
  cases size <;> exact ⟨fun _ => rfl, rfl, rfl⟩

theorem updateEntry_stores {update : StrongEntry Buffer F → StrongEntry Buffer F}
    (h : ∀ e, StrongEntry.core (update e) = StrongEntry.core e)
    (s : BufferCache Checksum Buffer F) (cs : Checksum) :
    SameStores s (s.updateEntry cs update) := by
  refine ⟨coreAt_updateEntry h s cs, ?_, ?_⟩
  · unfold updateEntry
    split <;> rfl
  · unfold updateEntry
    split <;> rfl

theorem addHolder_stores (s : BufferCache Checksum Buffer F) (cs : Checksum) :
    SameStores s (s.addHolder cs) := by
  unfold addHolder
  simp only
  split
  · have hup : SameStores s (s.updateEntry cs fun e => { e with hasRefholderBridge := true }) := by
      apply updateEntry_stores
      intro e
      rfl
    exact ⟨hup.core, hup.weak, hup.written⟩
  · exact ⟨fun _ => rfl, rfl, rfl⟩

/-! ## §2. Registration. -/

variable (P : CacheParams Checksum Buffer F)

/-- `register`, by what the strong store holds. -/
theorem register_eq (s : BufferCache Checksum Buffer F) (cs : Checksum) (b : Buffer)
    (size : Option Nat) :
    ∃ (n : Option Nat) (t : BufferCache Checksum Buffer F),
      t.strongCache = s.strongCache ∧ t.weakCache = s.weakCache.set cs b ∧
      t.written = s.written ∧
      register P s cs b size =
        match s.strongCache.lookup cs with
        | none => t.handOver none
        | some e =>
          (t.setEntry cs { e with buffer := some b, size := n }).handOver
            (if e.buffer.isNone && e.remoteRegistered then some b else none) := by
  -- the size is noted first, and the weak store set, before the strong store is looked at
  set n := size <|> P.lengthAttr b <|> s.sizes.lookup cs with hn
  set t : BufferCache Checksum Buffer F :=
    { s.noteSize cs n with weakCache := (s.noteSize cs n).weakCache.set cs b } with ht
  have hstrong : t.strongCache = s.strongCache := by
    rw [ht]
    cases n <;> rfl
  refine ⟨n, t, hstrong, ?_, ?_, ?_⟩
  · rw [ht]
    cases n <;> rfl
  · rw [ht]
    cases n <;> rfl
  · have hdef : registerLocked P s cs b size =
        match t.strongCache.lookup cs with
        | none => (t, none)
        | some e =>
          (t.setEntry cs { e with buffer := some b, size := n },
            if e.buffer.isNone && e.remoteRegistered then some b else none) := rfl
    unfold register
    rw [hdef, hstrong]
    cases s.strongCache.lookup cs <;> rfl

/-- Registration gives a strong entry the buffer. -/
theorem register_core (s : BufferCache Checksum Buffer F) (cs : Checksum) (b : Buffer)
    (size : Option Nat) (k : Checksum) :
    coreAt (register P s cs b size) k =
      if k = cs then (coreAt s cs).map fun c => (some b, c.2) else coreAt s k := by
  obtain ⟨n, t, hstrong, -, -, heq⟩ := register_eq P s cs b size
  have hcore : coreAt t k = coreAt s k := by
    rw [coreAt, hstrong, coreAt]
  rw [heq]
  cases he : s.strongCache.lookup cs with
  | none =>
    show coreAt t k = _
    rw [hcore]
    by_cases hk : k = cs
    · rw [if_pos hk, hk, coreAt, he]
      rfl
    · rw [if_neg hk]
  | some e =>
    show coreAt (t.setEntry cs _) k = _
    rw [coreAt_setEntry, hcore]
    by_cases hk : k = cs
    · rw [if_pos hk, if_pos hk, coreAt, he]
      rfl
    · rw [if_neg hk, if_neg hk]

/-- Registration puts the buffer into the weak store. -/
theorem register_weak (s : BufferCache Checksum Buffer F) (cs : Checksum) (b : Buffer)
    (size : Option Nat) (k : Checksum) :
    (register P s cs b size).weakCache.lookup k =
      if k = cs then some b else s.weakCache.lookup k := by
  obtain ⟨n, t, -, hweak, -, heq⟩ := register_eq P s cs b size
  have h : (register P s cs b size).weakCache = s.weakCache.set cs b := by
    rw [heq, ← hweak]
    cases s.strongCache.lookup cs <;> rfl
  rw [h, Dict.lookup_set]

/-- Registration writes the buffer that a flagged entry was waiting for. -/
theorem register_written (s : BufferCache Checksum Buffer F) (cs : Checksum) (b : Buffer)
    (size : Option Nat) :
    s.written ⊆ (register P s cs b size).written ∧
      (coreAt s cs = some (none, true) → b ∈ (register P s cs b size).written) := by
  obtain ⟨n, t, -, -, hwritten, heq⟩ := register_eq P s cs b size
  rw [heq, coreAt]
  cases he : s.strongCache.lookup cs with
  | none =>
    refine ⟨?_, fun hcore => by cases hcore⟩
    show s.written ⊆ t.written ++ []
    rw [hwritten, List.append_nil]
    exact fun x hx => hx
  | some e =>
    show s.written ⊆ t.written ++ _ ∧ (_ → b ∈ t.written ++ _)
    rw [hwritten]
    -- nothing is taken from the log, and a flagged entry without buffer is written
    refine ⟨fun x hx => List.mem_append_left _ hx, fun hcore => ?_⟩
    simp only [Option.map_some, Option.some.injEq, StrongEntry.core, Prod.mk.injEq] at hcore
    rw [hcore.1, hcore.2]
    simp

/-! ## §3. Entries on demand. -/

omit [DecidableEq Checksum] in
/-- The core of an entry after it was ensured with a buffer or without. -/
def attachCore (core : Option (Option Buffer × Bool)) (buffer : Option Buffer)
    (writeRemote : Bool) : Option Buffer × Bool :=
  match core with
  | none => (buffer, writeRemote)
  | some (old, flag) => (old <|> buffer, flag || writeRemote)

omit [DecidableEq Checksum] in
/-- Attaching sets the flag, and yields the buffer to write unless it was
there under the flag already. -/
theorem attach_core (e : StrongEntry Buffer F) (buffer : Option Buffer) (writeRemote : Bool) :
    StrongEntry.core (attach e buffer writeRemote).1
        = attachCore (some (StrongEntry.core e)) buffer writeRemote ∧
      (writeRemote = true → (e.buffer = none ∨ e.remoteRegistered = false) →
        (attach e buffer writeRemote).2 = (e.buffer <|> buffer)) := by
  unfold attach attachCore StrongEntry.core
  cases he : e.buffer <;> cases buffer <;> cases writeRemote <;> cases hr : e.remoteRegistered <;>
    simp [he, hr]

/-- The buffer an operation works with: its argument, or the weak store's. -/
def bufferOf (s : BufferCache Checksum Buffer F) (cs : Checksum)
    (arg : Option (BufferArg Buffer)) : Option Buffer :=
  arg.map BufferArg.buffer <|> s.weakCache.lookup cs

/-- What an operation that ensures an entry does to cores, weak store and log. -/
theorem withEntry_stores (s : BufferCache Checksum Buffer F) (cs : Checksum)
    (arg : Option (BufferArg Buffer)) (scratch : Bool)
    (update : BufferCache Checksum Buffer F → BufferCache Checksum Buffer F)
    (hup : ∀ t, SameStores t (update t)) :
    ((withEntry P s cs arg scratch update).2 = .assertionError ∧
      SameStores (getChecksum P s arg) (withEntry P s cs arg scratch update).1) ∨
    ((withEntry P s cs arg scratch update).2 = .done ∧
      (∀ b, bufferOf s cs arg = some b → P.checksum b = cs) ∧
      (∀ k, coreAt (withEntry P s cs arg scratch update).1 k =
        if k = cs then
          some (attachCore (coreAt (getChecksum P s arg) cs) (bufferOf s cs arg) (!scratch))
        else coreAt (getChecksum P s arg) k) ∧
      (withEntry P s cs arg scratch update).1.weakCache = (getChecksum P s arg).weakCache ∧
      (getChecksum P s arg).written ⊆ (withEntry P s cs arg scratch update).1.written ∧
      (scratch = false →
        (∀ b, coreAt (getChecksum P s arg) cs ≠ some (some b, true)) →
        ∀ b, (attachCore (coreAt (getChecksum P s arg) cs) (bufferOf s cs arg) true).1 = some b →
          b ∈ (withEntry P s cs arg scratch update).1.written)) := by
  set t := getChecksum P s arg with ht
  set buffer := bufferOf s cs arg with hbuffer
  -- the entry that is ensured, in one equation
  have hdef : ensureEntry P s cs arg scratch =
      if ∃ b, buffer = some b ∧ P.checksum b ≠ cs then (t, none)
      else match t.strongCache.lookup cs with
        | none =>
          let size := t.sizes.lookup cs <|> buffer.bind P.lengthAttr
          ((t.noteSize cs size).setEntry cs
            { buffer := buffer, size := size, manualRefs := 0, hasRefholderBridge := false,
              tempref := none, temprefScratch := false, remoteRegistered := !scratch },
            some (if scratch then none else buffer))
        | some e =>
          (t.setEntry cs (attach e buffer (!scratch)).1,
            some (attach e buffer (!scratch)).2) := rfl
  unfold withEntry
  rw [hdef]
  by_cases hbad : ∃ b, buffer = some b ∧ P.checksum b ≠ cs
  · rw [if_pos hbad]
    exact Or.inl ⟨rfl, SameStores.refl t⟩
  rw [if_neg hbad]
  have hgood : ∀ b, buffer = some b → P.checksum b = cs := by
    intro b hb
    by_contra hne
    exact hbad ⟨b, hb, hne⟩
  right
  cases he : t.strongCache.lookup cs with
  | none =>
    -- a new entry
    have hnone : coreAt t cs = none := by
      rw [coreAt, he]
      rfl
    simp only
    set size := t.sizes.lookup cs <|> buffer.bind P.lengthAttr with hsize
    have hnote := noteSize_stores t cs size
    set u := (t.noteSize cs size).setEntry cs
      { buffer := buffer, size := size, manualRefs := 0, hasRefholderBridge := false,
        tempref := none, temprefScratch := false, remoteRegistered := !scratch } with hu
    refine ⟨trivial, hgood, fun k => ?_, ?_, fun x hx => ?_, fun hscratch _ b hb => ?_⟩
    · show coreAt (update u) k = _
      rw [(hup u).core, hu, coreAt_setEntry, hnote.core, hnone]
      rfl
    · show (update u).weakCache = _
      rw [(hup u).weak]
      exact hnote.weak
    · show x ∈ (update u).written ++ _
      have hw : u.written = t.written := hnote.written
      rw [(hup u).written, hw]
      exact List.mem_append_left _ hx
    · show b ∈ (update u).written ++ Option.toList (if scratch then none else buffer)
      rw [hnone] at hb
      have hbuf : buffer = some b := hb
      rw [hscratch, hbuf]
      simp
  | some e =>
    have hsome : coreAt t cs = some (StrongEntry.core e) := by
      rw [coreAt, he]
      rfl
    obtain ⟨hcore, hwrite⟩ := attach_core e buffer (!scratch)
    simp only
    set u := t.setEntry cs (attach e buffer (!scratch)).1 with hu
    refine ⟨trivial, hgood, fun k => ?_, ?_, fun x hx => ?_, fun hscratch hnot b hb => ?_⟩
    · show coreAt (update u) k = _
      rw [(hup u).core, hu, coreAt_setEntry, hcore, hsome]
    · show (update u).weakCache = _
      rw [(hup u).weak]
      rfl
    · show x ∈ (update u).written ++ _
      have hw : u.written = t.written := rfl
      rw [(hup u).written, hw]
      exact List.mem_append_left _ hx
    · show b ∈ (update u).written ++ Option.toList (attach e buffer (!scratch)).2
      rw [hsome] at hb hnot
      have hold : e.buffer = none ∨ e.remoteRegistered = false := by
        cases hbuf : e.buffer with
        | none => exact Or.inl rfl
        | some c =>
          right
          have hne := hnot c
          simp only [StrongEntry.core, hbuf, ne_eq, Option.some.injEq, Prod.mk.injEq, true_and,
            Bool.not_eq_true] at hne
          exact hne
      have hb' : (e.buffer <|> buffer) = some b := hb
      rw [hwrite (by rw [hscratch]; rfl) hold, hb']
      simp

/-! ## §4. Demotion. -/

/-- Entries may go, and their buffers into the weak store; nothing else moves. -/
structure Shrinks (s s' : BufferCache Checksum Buffer F) : Prop where
  core : ∀ k, coreAt s' k = none ∨ coreAt s' k = coreAt s k
  weak : ∀ k b, s'.weakCache.lookup k = some b → s.weakCache.lookup k = some b ∨
    (coreAt s' k = none ∧ ∃ flag, coreAt s k = some (some b, flag))
  written : s'.written = s.written

omit P in
theorem SameStores.shrinks {s s' : BufferCache Checksum Buffer F} (h : SameStores s s') :
    Shrinks s s' :=
  ⟨fun k => Or.inr (h.core k), fun k b hb => Or.inl (by rw [← h.weak]; exact hb), h.written⟩

omit P in
theorem Shrinks.trans {s t u : BufferCache Checksum Buffer F} (h : Shrinks s t)
    (h' : Shrinks t u) : Shrinks s u := by
  refine ⟨fun k => ?_, fun k b hb => ?_, h'.written.trans h.written⟩
  · rcases h'.core k with hk | hk
    · exact Or.inl hk
    · rw [hk]
      exact h.core k
  · rcases h'.weak k b hb with hweak | ⟨hgone, flag, hcore⟩
    · rcases h.weak k b hweak with hweak | ⟨hgone, hold⟩
      · exact Or.inl hweak
      · refine Or.inr ⟨?_, hold⟩
        rcases h'.core k with hk | hk
        · exact hk
        · rw [hk]
          exact hgone
    · right
      rcases h.core k with hk | hk
      · rw [hk] at hcore
        cases hcore
      · exact ⟨hgone, flag, by rw [← hk]; exact hcore⟩

omit P in
theorem demote_lookup (f : FloatOps F) (s : BufferCache Checksum Buffer F) (cs : Checksum)
    (now : F) (k : Checksum) :
    (demote f s cs now).strongCache.lookup k =
      if k = cs then (s.strongCache.lookup cs).filter fun e => !canDemote f e now
      else s.strongCache.lookup k := by
  unfold demote
  cases he : s.strongCache.lookup cs with
  | none =>
    by_cases hk : k = cs
    · rw [if_pos hk, hk]
      exact he
    · rw [if_neg hk]
  | some e =>
    by_cases hcan : canDemote f e now = true
    · simp only [hcan, if_true]
      rw [Dict.lookup_erase]
      by_cases hk : k = cs
      · rw [if_pos hk, if_pos hk, Option.filter_some, hcan]
        rfl
      · rw [if_neg hk, if_neg hk]
    · have hno : canDemote f e now = false := by simpa using hcan
      simp only [hcan, if_false, Bool.false_eq_true]
      by_cases hk : k = cs
      · rw [if_pos hk, Option.filter_some, hno, hk, he]
        rfl
      · rw [if_neg hk]

omit P in
theorem demote_shrinks (f : FloatOps F) (s : BufferCache Checksum Buffer F) (cs : Checksum)
    (now : F) : Shrinks s (demote f s cs now) := by
  have hlookup := demote_lookup f s cs now
  unfold demote at hlookup ⊢
  cases he : s.strongCache.lookup cs with
  | none => exact (SameStores.refl s).shrinks
  | some e =>
    rw [he] at hlookup
    by_cases hcan : canDemote f e now = true
    · simp only [hcan, if_true] at hlookup ⊢
      refine ⟨fun k => ?_, fun k b hb => ?_, rfl⟩
      · by_cases hk : k = cs
        · left
          rw [coreAt, hlookup, if_pos hk]
          simp [hcan]
        · right
          rw [coreAt, hlookup, if_neg hk, coreAt]
      · cases hbuf : e.buffer with
        | none =>
          rw [hbuf] at hb
          exact Or.inl hb
        | some c =>
          rw [hbuf] at hb
          simp only [Dict.lookup_set] at hb
          by_cases hk : k = cs
          · rw [if_pos hk, Option.some.injEq] at hb
            refine Or.inr ⟨?_, e.remoteRegistered, ?_⟩
            · rw [coreAt, hlookup, if_pos hk]
              simp [hcan]
            · rw [hk, coreAt, he, ← hb, ← hbuf]
              rfl
          · rw [if_neg hk] at hb
            exact Or.inl hb
    · simp only [hcan, if_false, Bool.false_eq_true]
      exact (SameStores.refl s).shrinks

omit P in
/-- Clearing the tempref of an entry changes no core. -/
theorem clearTempref_stores {s : BufferCache Checksum Buffer F} {cs : Checksum}
    {e : StrongEntry Buffer F} (he : s.strongCache.lookup cs = some e) :
    SameStores s (s.setEntry cs { e with tempref := none }) := by
  refine ⟨fun k => ?_, rfl, rfl⟩
  rw [coreAt_setEntry]
  by_cases hk : k = cs
  · rw [if_pos hk, hk, coreAt, he]
    rfl
  · rw [if_neg hk]

omit P in
theorem dropTempref_shrinks (f : FloatOps F) {s : BufferCache Checksum Buffer F} {cs : Checksum}
    {e : StrongEntry Buffer F} (he : s.strongCache.lookup cs = some e) (now : F) :
    Shrinks s (demote f (s.setEntry cs { e with tempref := none }) cs now) :=
  (clearTempref_stores he).shrinks.trans (demote_shrinks f _ cs now)

omit P in
/-- Without its tempref, an entry goes unless a claim protects it. -/
theorem dropTempref_lookup (f : FloatOps F) {s : BufferCache Checksum Buffer F} {cs : Checksum}
    {e : StrongEntry Buffer F} (now : F) (k : Checksum) :
    (demote f (s.setEntry cs { e with tempref := none }) cs now).strongCache.lookup k =
      if k = cs then (if evictionProtected e then some { e with tempref := none } else none)
      else s.strongCache.lookup k := by
  have hcan : canDemote f { e with tempref := none } now = !evictionProtected e := by
    simp only [canDemote, hasLiveTempref, evictionProtected, Bool.not_false, Bool.and_true,
      Bool.not_or]
    cases hm : (e.manualRefs == 0) <;> simp [bne, hm]
  rw [demote_lookup]
  by_cases hk : k = cs
  · rw [if_pos hk, if_pos hk]
    show Option.filter _ ((s.strongCache.set cs _).lookup cs) = _
    rw [Dict.lookup_set_self, Option.filter_some, hcan]
    cases evictionProtected e <;> rfl
  · rw [if_neg hk, if_neg hk]
    exact Dict.lookup_set_ne _ _ hk

/-! ## §5. Purge. -/

omit P in
theorem purgeOne_shrinks (s : BufferCache Checksum Buffer F) (cs : Checksum) :
    Shrinks s (purgeOne s cs).1 := by
  have herase : ∀ (t : BufferCache Checksum Buffer F) k b,
      t.weakCache = s.weakCache.erase cs → t.weakCache.lookup k = some b →
        s.weakCache.lookup k = some b := by
    intro t k b ht hb
    rw [ht, Dict.lookup_erase] at hb
    by_cases hk : k = cs
    · rw [if_pos hk] at hb
      cases hb
    · rw [if_neg hk] at hb
      exact hb
  unfold purgeOne
  split
  · split
    · exact ⟨fun _ => Or.inr rfl, fun k b hb => Or.inl (herase _ k b rfl hb), rfl⟩
    · exact (SameStores.refl s).shrinks
  · split
    · exact (SameStores.refl s).shrinks
    · split
      · exact (SameStores.refl s).shrinks
      · refine ⟨fun k => ?_, fun k b hb => Or.inl (herase _ k b rfl hb), rfl⟩
        simp only [coreAt, Dict.lookup_erase]
        by_cases hk : k = cs
        · exact Or.inl (by rw [if_pos hk]; rfl)
        · exact Or.inr (by rw [if_neg hk])

omit P [DecidableEq Checksum] in
/-- The entries that `purge_scratch` removes: unclaimed, under a scratch tempref. -/
def purgeable (e : StrongEntry Buffer F) : Bool :=
  !evictionProtected e && e.tempref.isSome && e.temprefScratch

omit P in
theorem purgeOne_lookup (s : BufferCache Checksum Buffer F) (cs k : Checksum) :
    (purgeOne s cs).1.strongCache.lookup k =
      if k = cs then (s.strongCache.lookup cs).filter fun e => !purgeable e
      else s.strongCache.lookup k := by
  unfold purgeOne
  cases he : s.strongCache.lookup cs with
  | none =>
    have hsame : ∀ t : BufferCache Checksum Buffer F, t.strongCache = s.strongCache →
        t.strongCache.lookup k = if k = cs then none else s.strongCache.lookup k := by
      intro t ht
      rw [ht]
      by_cases hk : k = cs
      · rw [if_pos hk, hk, he]
      · rw [if_neg hk]
    simp only
    split
    · exact hsame _ rfl
    · exact hsame _ rfl
  | some e =>
    -- an entry that stays is one that purging may not drop
    have hsame : purgeable e = false →
        s.strongCache.lookup k =
          if k = cs then (some e).filter fun e => !purgeable e else s.strongCache.lookup k := by
      intro hno
      by_cases hk : k = cs
      · rw [if_pos hk, hk, he, Option.filter_some, hno]
        rfl
      · rw [if_neg hk]
    simp only
    split
    · next hclaimed =>
      refine hsame ?_
      rcases hclaimed with h | h <;> simp [purgeable, evictionProtected, h]
    · next hclaimed =>
      rw [not_or] at hclaimed
      split
      · next hkeep =>
        refine hsame ?_
        simp only [Bool.or_eq_true, Option.isNone_iff_eq_none, Bool.not_eq_true'] at hkeep
        rcases hkeep with h | h <;> simp [purgeable, h]
      · next hdrop =>
        simp only [Bool.or_eq_true, Option.isNone_iff_eq_none, Bool.not_eq_true', not_or,
          Bool.not_eq_false] at hdrop
        have hpurge : purgeable e = true := by
          have hm : e.manualRefs = 0 := by simpa using hclaimed.1
          have hsome : e.tempref.isSome = true := Option.isSome_iff_ne_none.mpr hdrop.1
          have hb : e.hasRefholderBridge = false := by simpa using hclaimed.2
          simp [purgeable, evictionProtected, hm, hb, hsome, hdrop.2]
        rw [Dict.lookup_erase]
        by_cases hk : k = cs
        · rw [if_pos hk, if_pos hk, Option.filter_some, hpurge]
          rfl
        · rw [if_neg hk, if_neg hk]

omit P in
/-- The checksums that `purge_scratch` looks at. -/
def purgeTargets (s : BufferCache Checksum Buffer F) : Option Checksum → List Checksum
  | some cs => [cs]
  | none => s.scratchRefs.keyList

omit P in
theorem purgeScratch_eq (s : BufferCache Checksum Buffer F) (cs : Option Checksum) :
    (purgeScratch s cs).1 = (purgeTargets s cs).foldl (fun s cs => (purgeOne s cs).1) s := by
  have hfold : ∀ (keys : List Checksum) (t : BufferCache Checksum Buffer F) (n : Nat),
      (keys.foldl (fun acc cs => ((purgeOne acc.1 cs).1, acc.2 + (purgeOne acc.1 cs).2)) (t, n)).1
        = keys.foldl (fun s cs => (purgeOne s cs).1) t := by
    intro keys
    induction keys with
    | nil => intro t n; rfl
    | cons k ks ih => intro t n; exact ih _ _
  cases cs with
  | none => exact hfold (purgeTargets s none) s 0
  | some cs => exact hfold (purgeTargets s (some cs)) s 0

omit P in
theorem purgeScratch_shrinks (s : BufferCache Checksum Buffer F) (cs : Option Checksum) :
    Shrinks s (purgeScratch s cs).1 := by
  rw [purgeScratch_eq]
  generalize purgeTargets s cs = keys
  induction keys generalizing s with
  | nil => exact (SameStores.refl s).shrinks
  | cons k ks ih => exact (purgeOne_shrinks s k).trans (ih _)

omit P in
/-- `purge_scratch` removes exactly the purgeable entries among its targets. -/
theorem purgeScratch_lookup (s : BufferCache Checksum Buffer F) (cs : Option Checksum)
    (k : Checksum) :
    (purgeScratch s cs).1.strongCache.lookup k =
      if k ∈ purgeTargets s cs then (s.strongCache.lookup k).filter fun e => !purgeable e
      else s.strongCache.lookup k := by
  have hnodup : (purgeTargets s cs).Nodup := by
    cases cs with
    | none => exact Dict.nodup_keyList _
    | some cs => exact List.nodup_singleton cs
  rw [purgeScratch_eq]
  exact Dict.foldl_pointwise (fun s k => s.strongCache.lookup k) (fun s cs => (purgeOne s cs).1)
    (fun _ old => old.filter fun e => !purgeable e) purgeOne_lookup _ s hnodup k

/-! ## §6. Eviction. -/

/-- What the expiry pass does to the entry of a checksum. -/
def expired (r : EvictionReadings Checksum F) (cs : Checksum)
    (old : Option (StrongEntry Buffer F)) : Option (StrongEntry Buffer F) :=
  old.bind fun e =>
    match e.tempref with
    | none => some e
    | some t =>
      if P.float.lt (currentInterest P.float t (r.expiryClock cs))
          (temprefMinimalInterest P.float) then
        if evictionProtected e then some { e with tempref := none } else none
      else some e

theorem expireOne_lookup (r : EvictionReadings Checksum F) (s : BufferCache Checksum Buffer F)
    (cs k : Checksum) :
    (expireOne P r s cs).strongCache.lookup k =
      if k = cs then expired P r cs (s.strongCache.lookup cs) else s.strongCache.lookup k := by
  unfold expireOne expired
  cases he : s.strongCache.lookup cs with
  | none =>
    by_cases hk : k = cs
    · rw [if_pos hk, hk, he]
      rfl
    · rw [if_neg hk]
  | some e =>
    cases ht : e.tempref with
    | none =>
      simp only [ht, Option.bind_some]
      by_cases hk : k = cs
      · rw [if_pos hk, hk, he]
      · rw [if_neg hk]
    | some t =>
      simp only [ht, Option.bind_some]
      split
      · exact dropTempref_lookup P.float _ k
      · by_cases hk : k = cs
        · rw [if_pos hk, hk, he]
        · rw [if_neg hk]

theorem expireOne_shrinks (r : EvictionReadings Checksum F) (s : BufferCache Checksum Buffer F)
    (cs : Checksum) : Shrinks s (expireOne P r s cs) := by
  unfold expireOne
  split
  · exact (SameStores.refl s).shrinks
  · next e he =>
    split
    · exact (SameStores.refl s).shrinks
    · simp only
      split
      · exact dropTempref_shrinks P.float he _
      · exact (SameStores.refl s).shrinks

theorem expireTemprefs_lookup (r : EvictionReadings Checksum F)
    (s : BufferCache Checksum Buffer F) (k : Checksum) :
    (expireTemprefs P r s).strongCache.lookup k = expired P r k (s.strongCache.lookup k) := by
  have hall := Dict.foldl_pointwise (fun s k => s.strongCache.lookup k) (expireOne P r)
    (fun k old => expired P r k old) (expireOne_lookup P r) s.strongCache.keyList s
    (Dict.nodup_keyList _) k
  show (s.strongCache.keyList.foldl (expireOne P r) s).strongCache.lookup k = _
  rw [hall]
  by_cases hk : k ∈ s.strongCache.keyList
  · rw [if_pos hk]
  · rw [if_neg hk]
    have hnone : s.strongCache.lookup k = none := by
      rw [AList.lookup_eq_none]
      exact fun h => hk (Dict.mem_keyList.mpr h)
    rw [hnone]
    rfl

theorem expireTemprefs_shrinks (r : EvictionReadings Checksum F)
    (s : BufferCache Checksum Buffer F) : Shrinks s (expireTemprefs P r s) := by
  unfold expireTemprefs
  generalize s.strongCache.keyList = keys
  induction keys generalizing s with
  | nil => exact (SameStores.refl s).shrinks
  | cons k ks ih => exact (expireOne_shrinks P r s k).trans (ih _)

omit [DecidableEq Checksum] in
/-- The bytes of an entry as the memory usage counts them. -/
def entryBytes (old : Option (StrongEntry Buffer F)) : Nat :=
  (old.bind StrongEntry.size).getD 0

/-- The candidates that the second loop evicts, in order. -/
def victims (s : BufferCache Checksum Buffer F) : Int → List (F × Checksum) → List Checksum
  | _, [] => []
  | current, (score, cs) :: rest =>
    if current ≤ P.softCap then []
    else if P.float.isInf score then victims s current rest
    else if cs ∈ s.strongCache then
      cs :: victims s (current - entryBytes (s.strongCache.lookup cs)) rest
    else victims s current rest

/-- The victims depend on the entries of the candidates only. -/
theorem victims_congr {s t : BufferCache Checksum Buffer F} (cands : List (F × Checksum)) :
    ∀ current : Int, (∀ c ∈ cands, t.strongCache.lookup c.2 = s.strongCache.lookup c.2) →
      victims P t current cands = victims P s current cands := by
  induction cands with
  | nil => intro current _; rfl
  | cons c rest ih =>
    intro current h
    obtain ⟨score, cs⟩ := c
    have hcs : t.strongCache.lookup cs = s.strongCache.lookup cs := h (score, cs) (by simp)
    have hrest := fun current => ih current fun c hc => h c (by simp [hc])
    have hmem : cs ∈ t.strongCache ↔ cs ∈ s.strongCache := by
      rw [← AList.lookup_isSome, ← AList.lookup_isSome, hcs]
    simp only [victims, hrest, hcs, hmem]

theorem victims_subset (s : BufferCache Checksum Buffer F) (cands : List (F × Checksum)) :
    ∀ current : Int, ∀ k ∈ victims P s current cands, k ∈ cands.map Prod.snd := by
  induction cands with
  | nil => intro current k hk; simp [victims] at hk
  | cons c rest ih =>
    intro current k hk
    obtain ⟨score, cs⟩ := c
    unfold victims at hk
    split at hk
    · cases hk
    · split at hk
      · exact List.mem_cons_of_mem _ (ih _ k hk)
      · split at hk
        · rcases List.mem_cons.mp hk with hk | hk
          · rw [hk]
            exact List.mem_cons_self
          · exact List.mem_cons_of_mem _ (ih _ k hk)
        · exact List.mem_cons_of_mem _ (ih _ k hk)

/-- The second loop removes exactly its victims. -/
theorem evictLoop_lookup (r : EvictionReadings Checksum F) (cands : List (F × Checksum)) :
    ∀ (current : Int) (s : BufferCache Checksum Buffer F),
      (cands.map Prod.snd).Nodup →
      (∀ c ∈ cands, ∀ e, s.strongCache.lookup c.2 = some e → evictionProtected e = false) →
      ∀ k, (evictLoop P r current cands s).2.strongCache.lookup k =
        if k ∈ victims P s current cands then none else s.strongCache.lookup k := by
  induction cands with
  | nil => intro current s _ _ k; simp [evictLoop, victims]
  | cons c rest ih =>
    intro current s hnodup hfree k
    obtain ⟨score, cs⟩ := c
    obtain ⟨hcs, hrest⟩ := List.nodup_cons.mp hnodup
    have hfree' : ∀ c ∈ rest, ∀ e, s.strongCache.lookup c.2 = some e →
        evictionProtected e = false := fun c hc => hfree c (by simp [hc])
    unfold evictLoop victims
    by_cases hcap : current ≤ P.softCap
    · simp [hcap]
    · rw [if_neg hcap, if_neg hcap]
      by_cases hinf : P.float.isInf score = true
      · rw [if_pos hinf, if_pos hinf]
        exact ih current s hrest hfree' k
      · rw [if_neg hinf, if_neg hinf]
        cases he : s.strongCache.lookup cs with
        | none =>
          have hno : cs ∉ s.strongCache := AList.lookup_eq_none.mp he
          rw [if_neg hno]
          exact ih current s hrest hfree' k
        | some e =>
          have hyes : cs ∈ s.strongCache := by
            rw [← AList.lookup_isSome, he]
            rfl
          have hunprot : evictionProtected e = false := hfree (score, cs) (by simp) e he
          -- the state after this eviction, and what is seen in it
          set t := demote P.float (s.setEntry cs { e with tempref := none }) cs
            (r.scoreClock cs) with ht
          have hlook : ∀ j, t.strongCache.lookup j =
              if j = cs then none else s.strongCache.lookup j := by
            intro j
            rw [ht, dropTempref_lookup, hunprot]
            rfl
          have hother : ∀ c ∈ rest, t.strongCache.lookup c.2 = s.strongCache.lookup c.2 := by
            intro c hc
            rw [hlook, if_neg]
            intro heq
            have hmem : c.2 ∈ rest.map Prod.snd := List.mem_map_of_mem hc
            rw [heq] at hmem
            exact hcs hmem
          have hfree'' : ∀ c ∈ rest, ∀ e, t.strongCache.lookup c.2 = some e →
              evictionProtected e = false := by
            intro c hc e' he'
            rw [hother c hc] at he'
            exact hfree' c hc e' he'
          have hbytes : entryBytes (some e) = e.size.getD 0 := rfl
          simp only
          rw [ih _ t hrest hfree'' k, victims_congr P rest _ hother, if_pos hyes, hbytes, hlook]
          by_cases hk : k = cs
          · simp [hk]
          · simp [hk]

theorem evictLoop_shrinks (r : EvictionReadings Checksum F) (cands : List (F × Checksum)) :
    ∀ (current : Int) (s : BufferCache Checksum Buffer F),
      Shrinks s (evictLoop P r current cands s).2 := by
  induction cands with
  | nil => intro current s; exact (SameStores.refl s).shrinks
  | cons c rest ih =>
    intro current s
    obtain ⟨score, cs⟩ := c
    unfold evictLoop
    split
    · exact (SameStores.refl s).shrinks
    · split
      · exact ih current s
      · split
        · exact ih current s
        · next e he => exact (dropTempref_shrinks P.float he _).trans (ih _ _)

omit [DecidableEq Checksum] in
theorem candidates_nodup (r : EvictionReadings Checksum F) (s : BufferCache Checksum Buffer F) :
    ((candidates P r s).map Prod.snd).Nodup := by
  unfold candidates
  have hperm := List.mergeSort_perm
    ((s.strongCache.items.filter fun x => !evictionProtected x.2).map
      fun x => (candidateScore P r x.1 x.2, x.1)) (fun a b => !P.float.lt b.1 a.1)
  refine (hperm.map Prod.snd).nodup_iff.mpr ?_
  rw [List.map_map]
  have hsub : ((s.strongCache.items.filter fun x => !evictionProtected x.2).map Prod.fst).Sublist
      (s.strongCache.items.map Prod.fst) := List.filter_sublist.map Prod.fst
  exact (Dict.nodup_map_fst_items s.strongCache).sublist hsub

theorem candidates_free (r : EvictionReadings Checksum F) (s : BufferCache Checksum Buffer F) :
    ∀ c ∈ candidates P r s, ∀ e, s.strongCache.lookup c.2 = some e →
      evictionProtected e = false := by
  intro c hc e he
  unfold candidates at hc
  rw [List.mem_mergeSort, List.mem_map] at hc
  obtain ⟨⟨k, e'⟩, hmem, hck⟩ := hc
  obtain ⟨hitem, hfree⟩ := List.mem_filter.mp hmem
  have hk : c.2 = k := by rw [← hck]
  rw [hk, Dict.mem_items.mp hitem, Option.some.injEq] at he
  rw [← he]
  simpa using hfree

/-- The victims of an eviction pass, after the expiry of temprefs. -/
def evictionVictims (r : EvictionReadings Checksum F) (s : BufferCache Checksum Buffer F) :
    List Checksum :=
  let s := expireTemprefs P r s
  if strongMemoryUsage s ≤ P.softCap then []
  else victims P s (strongMemoryUsage s) (candidates P r s)

/-- An eviction pass removes exactly the expired entries and the victims. -/
theorem runEvictionOnce_lookup (r : EvictionReadings Checksum F)
    (s : BufferCache Checksum Buffer F) (k : Checksum) :
    (runEvictionOnce P r s).1.strongCache.lookup k =
      if k ∈ evictionVictims P r s then none else expired P r k (s.strongCache.lookup k) := by
  unfold runEvictionOnce evictionVictims
  simp only
  by_cases hcap : strongMemoryUsage (expireTemprefs P r s) ≤ P.softCap
  · rw [if_pos hcap, if_pos hcap]
    simp [expireTemprefs_lookup]
  · rw [if_neg hcap, if_neg hcap]
    rw [evictLoop_lookup P r _ _ _ (candidates_nodup P r _) (candidates_free P r _) k,
      expireTemprefs_lookup]

theorem runEvictionOnce_shrinks (r : EvictionReadings Checksum F)
    (s : BufferCache Checksum Buffer F) : Shrinks s (runEvictionOnce P r s).1 := by
  unfold runEvictionOnce
  simp only
  split
  · exact expireTemprefs_shrinks P r s
  · exact (expireTemprefs_shrinks P r s).trans (evictLoop_shrinks P r _ _ _)

end SeamlessCore.BufferCache
