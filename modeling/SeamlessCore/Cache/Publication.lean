/-
  SeamlessCore.Cache.Publication — no lost publication.

  A non-scratch claim that is still held, and a transfer write, oblige the
  cache to hand the buffer of the checksum to the writer as soon as it has
  one.  The obligation lives as a flag on the strong entry.  Two kinds of
  steps lose it: an operation without the flag's say (a tempref, a scratch or
  a neutral claim) that attaches an already hashed buffer to a flagged entry,
  and the removal of a flagged entry that still waits for its buffer.

  Main results:
    * `step_tidy` — flagged entries with a buffer have been written;
    * `step_flag` — no operation takes a flag off an entry that stays;
    * `drops_of_removed` — the ways in which an entry leaves the store;
    * `publication` — in every run without the two kinds of steps, nothing
      is lost.
-/
import SeamlessCore.Cache.Effects

namespace SeamlessCore.BufferCache

variable {Checksum Buffer F : Type} [DecidableEq Checksum]
variable (P : CacheParams Checksum Buffer F)

/-! ## §1. The state invariant. -/

/-- A buffer with this checksum has been handed to the writer. -/
def Handed (s : BufferCache Checksum Buffer F) (cs : Checksum) : Prop :=
  ∃ b ∈ s.written, P.checksum b = cs

/-- The strong entry is flagged and still waits for its buffer. -/
def Pending (s : BufferCache Checksum Buffer F) (cs : Checksum) : Prop :=
  coreAt s cs = some (none, true)

/-- Buffers are filed under their checksums, the weak store has nothing that
a strong entry lacks, and a flagged entry with a buffer has been written. -/
structure Tidy (s : BufferCache Checksum Buffer F) : Prop where
  strong_matches : ∀ cs b flag, coreAt s cs = some (some b, flag) → P.checksum b = cs
  weak_matches : ∀ cs b, s.weakCache.lookup cs = some b → P.checksum b = cs
  weak_empty : ∀ cs flag, coreAt s cs = some (none, flag) → s.weakCache.lookup cs = none
  flagged_handed : ∀ cs b, coreAt s cs = some (some b, true) → Handed P s cs

omit [DecidableEq Checksum] in
theorem Handed.mono {s s' : BufferCache Checksum Buffer F} (h : s.written ⊆ s'.written)
    {cs : Checksum} (hs : Handed P s cs) : Handed P s' cs := by
  obtain ⟨b, hb, hcs⟩ := hs
  exact ⟨b, h hb, hcs⟩

theorem new_tidy : Tidy P (new : BufferCache Checksum Buffer F) := by
  refine ⟨?_, ?_, ?_, ?_⟩ <;> intro cs <;> simp [coreAt, new]

theorem Tidy.sameStores {s s' : BufferCache Checksum Buffer F} (hs : Tidy P s)
    (h : SameStores s s') : Tidy P s' := by
  refine ⟨fun cs b flag hc => ?_, fun cs b hb => ?_, fun cs flag hc => ?_, fun cs b hc => ?_⟩
  · rw [h.core] at hc
    exact hs.strong_matches cs b flag hc
  · rw [h.weak] at hb
    exact hs.weak_matches cs b hb
  · rw [h.core] at hc
    rw [h.weak]
    exact hs.weak_empty cs flag hc
  · rw [h.core] at hc
    obtain ⟨c, hmem, hcs⟩ := hs.flagged_handed cs b hc
    exact ⟨c, by rw [h.written]; exact hmem, hcs⟩

/-- Demotion, purge and eviction keep the invariant. -/
theorem Tidy.shrinks {s s' : BufferCache Checksum Buffer F} (hs : Tidy P s)
    (h : Shrinks s s') : Tidy P s' := by
  have hstays : ∀ cs c, coreAt s' cs = some c → coreAt s cs = some c := by
    intro cs c hc
    rcases h.core cs with hk | hk
    · rw [hk] at hc
      cases hc
    · rw [← hk]
      exact hc
  refine ⟨fun cs b flag hc => hs.strong_matches cs b flag (hstays _ _ hc), fun cs b hb => ?_,
    fun cs flag hc => ?_, fun cs b hc => ?_⟩
  · rcases h.weak cs b hb with hb | ⟨-, flag, hc⟩
    · exact hs.weak_matches cs b hb
    · exact hs.strong_matches cs b flag hc
  · have hold := hs.weak_empty cs flag (hstays _ _ hc)
    cases hb : s'.weakCache.lookup cs with
    | none => rfl
    | some b =>
      rcases h.weak cs b hb with hb | ⟨hgone, -⟩
      · rw [hold] at hb
        cases hb
      · rw [hgone] at hc
        cases hc
  · obtain ⟨c, hmem, hcs⟩ := hs.flagged_handed cs b (hstays _ _ hc)
    exact ⟨c, by rw [h.written]; exact hmem, hcs⟩

/-- Registering a buffer under its checksum keeps the invariant. -/
theorem Tidy.register {s : BufferCache Checksum Buffer F} (hs : Tidy P s) (b : Buffer)
    (size : Option Nat) : Tidy P (register P s (P.checksum b) b size) := by
  have hcore := register_core P s (P.checksum b) b size
  have hweak := register_weak P s (P.checksum b) b size
  obtain ⟨hsub, hwrite⟩ := register_written P s (P.checksum b) b size
  refine ⟨fun cs c flag hc => ?_, fun cs c hc => ?_, fun cs flag hc => ?_, fun cs c hc => ?_⟩
  · rw [hcore] at hc
    by_cases hk : cs = P.checksum b
    · rw [if_pos hk] at hc
      obtain ⟨old, -, hold⟩ := Option.map_eq_some_iff.mp hc
      rw [Prod.mk.injEq, Option.some.injEq] at hold
      rw [← hold.1]
      exact hk.symm
    · rw [if_neg hk] at hc
      exact hs.strong_matches cs c flag hc
  · rw [hweak] at hc
    by_cases hk : cs = P.checksum b
    · rw [if_pos hk, Option.some.injEq] at hc
      rw [← hc]
      exact hk.symm
    · rw [if_neg hk] at hc
      exact hs.weak_matches cs c hc
  · rw [hcore] at hc
    by_cases hk : cs = P.checksum b
    · rw [if_pos hk] at hc
      obtain ⟨old, -, hold⟩ := Option.map_eq_some_iff.mp hc
      rw [Prod.mk.injEq] at hold
      cases hold.1
    · rw [if_neg hk] at hc
      rw [hweak, if_neg hk]
      exact hs.weak_empty cs flag hc
  · rw [hcore] at hc
    by_cases hk : cs = P.checksum b
    · rw [if_pos hk] at hc
      obtain ⟨⟨oldBuffer, flag⟩, hold, heq⟩ := Option.map_eq_some_iff.mp hc
      rw [Prod.mk.injEq] at heq
      have hflag : flag = true := heq.2
      rw [hflag] at hold
      -- either the entry waited for `b`, or its old buffer had been written
      cases oldBuffer with
      | none => exact ⟨b, hwrite hold, hk.symm⟩
      | some c' =>
        rw [hk]
        exact (hs.flagged_handed _ c' hold).mono P hsub
    · rw [if_neg hk] at hc
      exact (hs.flagged_handed cs c hc).mono P hsub

theorem Tidy.getChecksum {s : BufferCache Checksum Buffer F} (hs : Tidy P s)
    (arg : Option (BufferArg Buffer)) : Tidy P (getChecksum P s arg) := by
  unfold BufferCache.getChecksum
  split
  · exact hs.register P _ _
  · exact hs

/-- `get` finds nothing to attach. -/
theorem Tidy.get {s : BufferCache Checksum Buffer F} (hs : Tidy P s) (cs : Checksum) :
    (get s cs).1 = s := by
  unfold BufferCache.get
  cases he : s.strongCache.lookup cs with
  | none => rfl
  | some e =>
    cases hb : e.buffer with
    | some b => simp [hb]
    | none =>
      have hcore : coreAt s cs = some (none, e.remoteRegistered) := by
        rw [coreAt, he, ← hb]
        rfl
      simp only [hb, hs.weak_empty cs _ hcore]

/-! ## §2. One operation. -/

omit P [DecidableEq Checksum] in
/-- The operations that ensure an entry: its checksum, the buffer they bring,
and whether they do it without publishing. -/
def ensures : Op Checksum Buffer F → Option (Checksum × Option (BufferArg Buffer) × Bool)
  | .incref cs arg scratch => some (cs, arg, scratch)
  | .increfRefholder cs arg scratch => some (cs, arg, scratch ≠ some false)
  | .tempref cs arg _ _ _ _ => some (cs, arg, true)
  | .transferWrite cs arg => some (cs, arg, false)
  | _ => none

/-- The operation attaches an already hashed buffer to an entry that waits for
one, on behalf of a tempref, a scratch claim or a neutral claim. -/
def AttachesSilently (s : BufferCache Checksum Buffer F) (op : Op Checksum Buffer F) : Prop :=
  ∃ cs b, ensures op = some (cs, some ⟨b, false⟩, true) ∧ P.checksum b = cs ∧ Pending s cs

/-- An operation that ensures an entry keeps the invariant, unless it attaches
silently. -/
theorem Tidy.withEntry {s : BufferCache Checksum Buffer F} (hs : Tidy P s) (cs : Checksum)
    (arg : Option (BufferArg Buffer)) (scratch : Bool)
    (update : BufferCache Checksum Buffer F → BufferCache Checksum Buffer F)
    (hup : ∀ t, SameStores t (update t))
    (hloud : scratch = true → ∀ b, arg = some ⟨b, false⟩ → P.checksum b = cs → ¬ Pending s cs) :
    Tidy P (withEntry P s cs arg scratch update).1 := by
  have ht := hs.getChecksum P arg
  rcases withEntry_stores P s cs arg scratch update hup with ⟨-, hsame⟩ |
    ⟨-, hgood, hcore, hweak, hsub, hwrite⟩
  · exact ht.sameStores P hsame
  set t := BufferCache.getChecksum P s arg with htdef
  set u := (BufferCache.withEntry P s cs arg scratch update).1 with hu
  -- the entry of `cs` in `t`, if it has no buffer, gets none silently
  have hfresh : ∀ b, arg = some ⟨b, true⟩ → ∀ flag, coreAt t cs ≠ some (none, flag) := by
    intro b harg flag hc
    have hcs : P.checksum b = cs := by
      apply hgood
      rw [bufferOf, harg]
      rfl
    have hreg : t = BufferCache.register P s (P.checksum b) b (some (P.contentLength b)) := by
      rw [htdef, harg]
      rfl
    rw [hreg, register_core, if_pos hcs.symm] at hc
    obtain ⟨old, -, hold⟩ := Option.map_eq_some_iff.mp hc
    rw [Prod.mk.injEq] at hold
    cases hold.1
  have hstale : (∀ b, arg ≠ some ⟨b, true⟩) → t = s := by
    intro hno
    rw [htdef]
    unfold BufferCache.getChecksum
    split
    · next b => exact absurd rfl (hno b)
    · rfl
  refine ⟨fun k b flag hc => ?_, fun k b hb => ?_, fun k flag hc => ?_, fun k b hc => ?_⟩
  · rw [hcore] at hc
    by_cases hk : k = cs
    · rw [if_pos hk, Option.some.injEq] at hc
      rw [hk]
      unfold attachCore at hc
      split at hc
      · rw [Prod.mk.injEq] at hc
        exact hgood b hc.1
      · next old oldFlag hold =>
        rw [Prod.mk.injEq] at hc
        cases old with
        | none => exact hgood b hc.1
        | some c =>
          have hcb : c = b := by simpa using hc.1
          rw [← hcb]
          exact ht.strong_matches cs c oldFlag hold
    · rw [if_neg hk] at hc
      exact ht.strong_matches k b flag hc
  · rw [hweak] at hb
    exact ht.weak_matches k b hb
  · rw [hweak]
    rw [hcore] at hc
    by_cases hk : k = cs
    · rw [if_pos hk, Option.some.injEq] at hc
      rw [hk]
      -- no buffer afterwards: none was given and none is known
      have hnobuf : bufferOf s cs arg = none := by
        unfold attachCore at hc
        split at hc
        · rw [Prod.mk.injEq] at hc
          exact hc.1
        · next old oldFlag hold =>
          rw [Prod.mk.injEq] at hc
          cases old with
          | none => exact hc.1
          | some c => cases hc.1
      have harg : arg = none := by
        cases arg with
        | none => rfl
        | some a => simp [bufferOf] at hnobuf
      have hts : t = s := hstale (by rw [harg]; intro b; simp)
      rw [hts]
      rw [bufferOf, harg] at hnobuf
      exact hnobuf
    · rw [if_neg hk] at hc
      exact ht.weak_empty k flag hc
  · rw [hcore] at hc
    by_cases hk : k = cs
    · rw [if_pos hk, Option.some.injEq] at hc
      rw [hk]
      by_cases hold : ∃ c, coreAt t cs = some (some c, true)
      · obtain ⟨c, hold⟩ := hold
        exact (ht.flagged_handed cs c hold).mono P hsub
      · push Not at hold
        have hb : (attachCore (coreAt t cs) (bufferOf s cs arg) (!scratch)).1 = some b := by
          rw [hc]
        have hbcs : P.checksum b = cs := by
          unfold attachCore at hb
          split at hb
          · exact hgood b hb
          · next old oldFlag holdc =>
            cases old with
            | none => exact hgood b hb
            | some c =>
              have hcb : c = b := by simpa using hb
              rw [← hcb]
              exact ht.strong_matches cs c oldFlag holdc
        cases scratch with
        | false => exact ⟨b, hwrite rfl hold b hb, hbcs⟩
        | true =>
          -- a scratch attachment to a flagged entry: excluded
          exfalso
          unfold attachCore at hc
          split at hc
          · rw [Prod.mk.injEq] at hc
            cases hc.2
          · next old oldFlag holdc =>
            rw [Prod.mk.injEq] at hc
            have hflag : oldFlag = true := by simpa using hc.2
            rw [hflag] at holdc
            cases old with
            | some c => exact hold c holdc
            | none =>
              have hno : ∀ b, arg ≠ some ⟨b, true⟩ := fun b h => hfresh b h true holdc
              rw [hstale hno] at holdc
              cases arg with
              | none =>
                have hweakNone := hs.weak_empty cs true holdc
                have hbuf : bufferOf s cs none = none := by
                  rw [bufferOf, hweakNone]
                  rfl
                rw [hbuf] at hc
                cases hc.1
              | some a =>
                obtain ⟨c, fresh⟩ := a
                cases fresh with
                | true => exact hno c rfl
                | false => exact hloud rfl c rfl (hgood c rfl) holdc
    · rw [if_neg hk] at hc
      exact (ht.flagged_handed k b hc).mono P hsub

/-- The operations that ensure an entry settle the scratch set first, and
update no core afterwards. -/
theorem step_of_ensures (s : BufferCache Checksum Buffer F) {op : Op Checksum Buffer F}
    {cs : Checksum} {arg : Option (BufferArg Buffer)} {scratch : Bool}
    (h : ensures op = some (cs, arg, scratch)) :
    ∃ s₀ update, SameStores s s₀ ∧ (∀ t, SameStores t (update t)) ∧
      step P s op = withEntry P s₀ cs arg scratch update := by
  -- the scratch record is no part of the stores
  have hadd : ∀ k, SameStores s (s.addScratch k) := fun _ => ⟨fun _ => rfl, rfl, rfl⟩
  have hdiscard : ∀ k, SameStores s (s.discardScratch k) := fun _ => ⟨fun _ => rfl, rfl, rfl⟩
  cases op with
  | incref k arg' scratch' =>
    simp only [ensures, Option.some.injEq, Prod.mk.injEq] at h
    obtain ⟨rfl, rfl, rfl⟩ := h
    refine ⟨if scratch' then s.addScratch k else s.discardScratch k,
      fun s => s.updateEntry k fun e => { e with manualRefs := e.manualRefs + 1 }, ?_,
      fun t => by apply updateEntry_stores; intro e; rfl, rfl⟩
    cases scratch' with
    | true => exact hadd k
    | false => exact hdiscard k
  | increfRefholder k arg' scratch' =>
    simp only [ensures, Option.some.injEq, Prod.mk.injEq] at h
    obtain ⟨rfl, rfl, rfl⟩ := h
    refine ⟨s.noteScratch k scratch', fun s => s.addHolder k, ?_,
      fun t => addHolder_stores t k, rfl⟩
    rcases scratch' with _ | _ | _
    · exact SameStores.refl s
    · exact hdiscard k
    · exact hadd k
  | tempref k arg' interest fadeFactor fadeInterval now =>
    simp only [ensures, Option.some.injEq, Prod.mk.injEq] at h
    obtain ⟨rfl, rfl, rfl⟩ := h
    exact ⟨s, fun s => s.updateEntry k fun e =>
      { e with
        tempref := some (refreshedTempref P.float e.tempref interest fadeFactor fadeInterval now)
        temprefScratch := true }, SameStores.refl s,
      fun t => by apply updateEntry_stores; intro e; rfl, rfl⟩
  | transferWrite k arg' =>
    simp only [ensures, Option.some.injEq, Prod.mk.injEq] at h
    obtain ⟨rfl, rfl, rfl⟩ := h
    exact ⟨s.discardScratch k, id, hdiscard k, SameStores.refl, rfl⟩
  | _ => simp [ensures] at h

/-- The operations that release a claim, purge or evict, and what they do
before anything leaves the strong store. -/
theorem step_shrinks (s : BufferCache Checksum Buffer F) (op : Op Checksum Buffer F)
    (hensures : ensures op = none) (hreg : ∀ cs b size, op ≠ .register cs b size)
    (hget : ∀ cs, op ≠ .get cs) : Shrinks s (step P s op).1 := by
  cases op with
  | register cs b size => exact absurd rfl (hreg cs b size)
  | get cs => exact absurd rfl (hget cs)
  | incref cs arg scratch => cases hensures
  | increfRefholder cs arg scratch => cases hensures
  | tempref cs arg i f n t => cases hensures
  | transferWrite cs arg => cases hensures
  | decref cs now =>
    show Shrinks s (decref P s cs now).1
    unfold decref
    cases he : s.strongCache.lookup cs with
    | none => exact (SameStores.refl s).shrinks
    | some e =>
      simp only
      split
      · exact (SameStores.refl s).shrinks
      · -- the count is lowered, which is no part of the core
        have hset : SameStores s (s.setEntry cs { e with manualRefs := e.manualRefs - 1 }) := by
          refine ⟨fun k => ?_, rfl, rfl⟩
          rw [coreAt_setEntry]
          by_cases hk : k = cs
          · rw [if_pos hk, hk, coreAt, he]
            rfl
          · rw [if_neg hk]
        exact hset.shrinks.trans (demote_shrinks P.float _ cs now)
  | decrefRefholder cs now =>
    show Shrinks s (decrefRefholder P s cs now).1
    unfold decrefRefholder
    simp only
    split
    · exact (SameStores.refl s).shrinks
    · split
      · have hdrop : SameStores s (s.dropCount cs) := ⟨fun _ => rfl, rfl, rfl⟩
        have hset : SameStores (s.dropCount cs) ((s.dropCount cs).updateEntry cs
            fun e => { e with hasRefholderBridge := false }) := by
          apply updateEntry_stores
          intro e
          rfl
        exact (hdrop.trans hset).shrinks.trans (demote_shrinks P.float _ cs now)
      · exact SameStores.shrinks ⟨fun _ => rfl, rfl, rfl⟩
  | markScratch cs => exact SameStores.shrinks ⟨fun _ => rfl, rfl, rfl⟩
  | purgeScratch cs => exact purgeScratch_shrinks s cs
  | runEvictionOnce r => exact runEvictionOnce_shrinks P r s
  | collect cs =>
    refine ⟨fun _ => Or.inr rfl, fun k b hb => Or.inl ?_, rfl⟩
    have hb' : (s.weakCache.erase cs).lookup k = some b := hb
    rw [Dict.lookup_erase] at hb'
    by_cases hk : k = cs
    · rw [if_pos hk] at hb'
      cases hb'
    · rw [if_neg hk] at hb'
      exact hb'

omit P [DecidableEq Checksum] in
/-- The kinds of operations. -/
theorem op_cases (op : Op Checksum Buffer F) :
    (∃ cs b size, op = .register cs b size) ∨ (∃ cs, op = .get cs) ∨
    (∃ cs arg scratch, ensures op = some (cs, arg, scratch)) ∨
    (ensures op = none ∧ (∀ cs b size, op ≠ .register cs b size) ∧ ∀ cs, op ≠ .get cs) := by
  cases op with
  | increfRefholder cs arg scratch => exact Or.inr (Or.inr (Or.inl ⟨cs, arg, _, rfl⟩))
  | _ => simp [ensures]

/-- The conditions on one operation that keep the state invariant: buffers are
registered under their own checksums, and none is attached silently. -/
def Loud (s : BufferCache Checksum Buffer F) (op : Op Checksum Buffer F) : Prop :=
  (∀ cs b size, op = .register cs b size → P.checksum b = cs) ∧ ¬ AttachesSilently P s op

/-- A loud operation keeps the invariant. -/
theorem step_tidy {s : BufferCache Checksum Buffer F} (hs : Tidy P s)
    {op : Op Checksum Buffer F} (hloud : Loud P s op) : Tidy P (step P s op).1 := by
  obtain ⟨hown, hsilent⟩ := hloud
  rcases op_cases op with ⟨cs, b, size, rfl⟩ | ⟨cs, rfl⟩ | ⟨cs, arg, scratch, hens⟩ |
    ⟨hens, hreg, hget⟩
  · have hcs := hown cs b size rfl
    show Tidy P (register P s cs b size)
    rw [← hcs]
    exact hs.register P b size
  · show Tidy P (get s cs).1
    rw [hs.get P cs]
    exact hs
  · obtain ⟨s₀, update, h₀, hup, hstep⟩ := step_of_ensures P s hens
    rw [hstep]
    refine (hs.sameStores P h₀).withEntry P cs arg scratch update hup ?_
    intro hscratch b harg hcs hpending
    refine hsilent ⟨cs, b, ?_, hcs, ?_⟩
    · rw [hens, harg, hscratch]
    · unfold Pending at hpending ⊢
      rw [← h₀.core]
      exact hpending
  · exact hs.shrinks P (step_shrinks P s op hens hreg hget)

/-- No operation takes the flag off an entry that stays. -/
theorem step_flag (s : BufferCache Checksum Buffer F) (op : Op Checksum Buffer F)
    {cs : Checksum} {b b' : Option Buffer} {flag : Bool} (h : coreAt s cs = some (b, true))
    (h' : coreAt (step P s op).1 cs = some (b', flag)) : flag = true := by
  have hregister : ∀ (t : BufferCache Checksum Buffer F) k c n, coreAt t cs = some (b, true) →
      ∃ b₁, coreAt (register P t k c n) cs = some (b₁, true) := by
    intro t k c n ht
    rw [register_core]
    by_cases hk : cs = k
    · rw [if_pos hk, ← hk, ht]
      exact ⟨some c, rfl⟩
    · rw [if_neg hk]
      exact ⟨b, ht⟩
  rcases op_cases op with ⟨k, c, size, rfl⟩ | ⟨k, rfl⟩ | ⟨k, arg, scratch, hens⟩ |
    ⟨hens, hreg, hget⟩
  · obtain ⟨b₁, h₁⟩ := hregister s k c size h
    have heq : coreAt (step P s (.register k c size)).1 cs = some (b₁, true) := h₁
    rw [heq, Option.some.injEq, Prod.mk.injEq] at h'
    exact h'.2.symm
  · have hgot : coreAt (get s k).1 cs = some (b', flag) := h'
    unfold get at hgot
    cases he : s.strongCache.lookup k with
    | none =>
      rw [he] at hgot
      rw [show coreAt s cs = some (b', flag) from hgot, Option.some.injEq, Prod.mk.injEq] at h
      exact h.2
    | some e =>
      rw [he] at hgot
      simp only at hgot
      split at hgot
      · rw [show coreAt s cs = some (b', flag) from hgot, Option.some.injEq, Prod.mk.injEq] at h
        exact h.2
      · split at hgot
        · rw [show coreAt s cs = some (b', flag) from hgot, Option.some.injEq, Prod.mk.injEq] at h
          exact h.2
        · rw [coreAt_setEntry] at hgot
          by_cases hk : cs = k
          · rw [if_pos hk, Option.some.injEq, StrongEntry.core, Prod.mk.injEq] at hgot
            rw [hk, coreAt, he, Option.map_some, Option.some.injEq, StrongEntry.core,
              Prod.mk.injEq] at h
            rw [← hgot.2]
            exact h.2
          · rw [if_neg hk, h, Option.some.injEq, Prod.mk.injEq] at hgot
            exact hgot.2.symm
  · obtain ⟨s₀, update, h₀, hup, hstep⟩ := step_of_ensures P s hens
    rw [hstep] at h'
    rw [← h₀.core] at h
    -- a fresh buffer may register itself first
    have hchecked : ∃ b₁, coreAt (getChecksum P s₀ arg) cs = some (b₁, true) := by
      unfold getChecksum
      split
      · exact hregister s₀ _ _ _ h
      · exact ⟨b, h⟩
    obtain ⟨b₁, h₁⟩ := hchecked
    rcases withEntry_stores P s₀ k arg scratch update hup with ⟨-, hsame⟩ | ⟨-, -, hcore, -⟩
    · rw [hsame.core, h₁, Option.some.injEq, Prod.mk.injEq] at h'
      exact h'.2.symm
    · rw [hcore] at h'
      by_cases hk : cs = k
      · rw [if_pos hk, ← hk, h₁, Option.some.injEq, attachCore, Prod.mk.injEq] at h'
        rw [← h'.2]
        rfl
      · rw [if_neg hk, h₁, Option.some.injEq, Prod.mk.injEq] at h'
        exact h'.2.symm
  · rcases (step_shrinks P s op hens hreg hget).core cs with hk | hk
    · rw [hk] at h'
      cases h'
    · rw [hk, h, Option.some.injEq, Prod.mk.injEq] at h'
      exact h'.2.symm

/-- The log of the writer only grows. -/
theorem step_written (s : BufferCache Checksum Buffer F) (op : Op Checksum Buffer F) :
    s.written ⊆ (step P s op).1.written := by
  rcases op_cases op with ⟨k, c, size, rfl⟩ | ⟨k, rfl⟩ | ⟨k, arg, scratch, hens⟩ |
    ⟨hens, hreg, hget⟩
  · exact (register_written P s k c size).1
  · have hsame : (get s k).1.written = s.written := by
      unfold get
      split
      · rfl
      · split
        · rfl
        · split <;> rfl
    intro x hx
    show x ∈ (get s k).1.written
    rw [hsame]
    exact hx
  · obtain ⟨s₀, update, h₀, hup, hstep⟩ := step_of_ensures P s hens
    have hchecked : s.written ⊆ (getChecksum P s₀ arg).written := by
      rw [← h₀.written]
      unfold getChecksum
      split
      · exact (register_written P s₀ _ _ _).1
      · exact fun x hx => hx
    rw [hstep]
    rcases withEntry_stores P s₀ k arg scratch update hup with ⟨-, hsame⟩ |
      ⟨-, -, -, -, hsub, -⟩
    · rw [hsame.written]
      exact hchecked
    · exact fun x hx => hsub (hchecked hx)
  · rw [(step_shrinks P s op hens hreg hget).written]
    exact fun x hx => hx

/-! ## §3. How an entry leaves the store. -/

/-- The operation removes the strong entry of `cs`: it gives back the last
claim on it, it purges it, or it evicts it. -/
def Drops (s : BufferCache Checksum Buffer F) (op : Op Checksum Buffer F) (cs : Checksum) :
    Prop :=
  match op with
  | .decref k now => k = cs ∧ ∃ e, s.strongCache.lookup cs = some e ∧ e.manualRefs = 1 ∧
      e.hasRefholderBridge = false ∧ hasLiveTempref P.float e now = false
  | .decrefRefholder k now => k = cs ∧ refholderCount s cs = 1 ∧
      ∃ e, s.strongCache.lookup cs = some e ∧ e.manualRefs = 0 ∧
        hasLiveTempref P.float e now = false
  | .purgeScratch o => cs ∈ purgeTargets s o ∧
      ∃ e, s.strongCache.lookup cs = some e ∧ purgeable e = true
  | .runEvictionOnce r => cs ∈ evictionVictims P r s ∨
      expired P r cs (s.strongCache.lookup cs) = none
  | _ => False

omit P in
theorem coreAt_eq_none {s : BufferCache Checksum Buffer F} {cs : Checksum} :
    coreAt s cs = none ↔ s.strongCache.lookup cs = none := by
  unfold coreAt
  exact Option.map_eq_none_iff

/-- There is no other way. -/
theorem drops_of_removed {s : BufferCache Checksum Buffer F} {op : Op Checksum Buffer F}
    {cs : Checksum} {c : Option Buffer × Bool} (h : coreAt s cs = some c)
    (hgone : coreAt (step P s op).1 cs = none) : Drops P s op cs := by
  obtain ⟨e, he, -⟩ := Option.map_eq_some_iff.mp h
  have hregister : ∀ (t : BufferCache Checksum Buffer F) k b n, coreAt t cs ≠ none →
      coreAt (register P t k b n) cs ≠ none := by
    intro t k b n ht
    rw [register_core]
    by_cases hk : cs = k
    · rw [if_pos hk, ← hk]
      simpa using ht
    · rw [if_neg hk]
      exact ht
  have hne : coreAt s cs ≠ none := by
    rw [h]
    exact Option.some_ne_none c
  -- an operation that ensures an entry loses none
  have hensured : ∀ k arg scratch, ensures op = some (k, arg, scratch) → False := by
    intro k arg scratch hens
    obtain ⟨s₀, update, h₀, hup, hstep⟩ := step_of_ensures P s hens
    have hchecked : coreAt (getChecksum P s₀ arg) cs ≠ none := by
      rw [← h₀.core] at hne
      unfold getChecksum
      split
      · exact hregister s₀ _ _ _ hne
      · exact hne
    rw [hstep] at hgone
    rcases withEntry_stores P s₀ k arg scratch update hup with ⟨-, hsame⟩ | ⟨-, -, hcore, -⟩
    · rw [hsame.core] at hgone
      exact hchecked hgone
    · rw [hcore] at hgone
      by_cases hk : cs = k
      · rw [if_pos hk] at hgone
        cases hgone
      · rw [if_neg hk] at hgone
        exact hchecked hgone
  cases op with
  | register k b size => exact absurd hgone (hregister s k b size hne)
  | get k =>
    exfalso
    have hgot : coreAt (get s k).1 cs = none := hgone
    unfold get at hgot
    split at hgot
    · exact hne hgot
    · split at hgot
      · exact hne hgot
      · split at hgot
        · exact hne hgot
        · rw [coreAt_setEntry] at hgot
          by_cases hk : cs = k
          · rw [if_pos hk] at hgot
            cases hgot
          · rw [if_neg hk] at hgot
            exact hne hgot
  | incref k arg scratch => exact (hensured k arg _ rfl).elim
  | increfRefholder k arg scratch => exact (hensured k arg _ rfl).elim
  | tempref k arg i f n t => exact (hensured k arg _ rfl).elim
  | transferWrite k arg => exact (hensured k arg _ rfl).elim
  | markScratch k => exact absurd hgone hne
  | collect k => exact absurd hgone hne
  | purgeScratch o =>
    have hlook : (purgeScratch s o).1.strongCache.lookup cs = none := coreAt_eq_none.mp hgone
    rw [purgeScratch_lookup] at hlook
    by_cases hmem : cs ∈ purgeTargets s o
    · rw [if_pos hmem, he, Option.filter_some] at hlook
      refine ⟨hmem, e, he, ?_⟩
      by_contra hno
      simp [hno] at hlook
    · rw [if_neg hmem, he] at hlook
      cases hlook
  | runEvictionOnce r =>
    have hlook : (runEvictionOnce P r s).1.strongCache.lookup cs = none :=
      coreAt_eq_none.mp hgone
    rw [runEvictionOnce_lookup] at hlook
    by_cases hmem : cs ∈ evictionVictims P r s
    · exact Or.inl hmem
    · rw [if_neg hmem] at hlook
      exact Or.inr hlook
  | decref k now =>
    have hlook : (decref P s k now).1.strongCache.lookup cs = none := coreAt_eq_none.mp hgone
    unfold decref at hlook
    cases hk : s.strongCache.lookup k with
    | none =>
      rw [hk] at hlook
      rw [show s.strongCache.lookup cs = none from hlook] at he
      cases he
    | some ek =>
      rw [hk] at hlook
      simp only at hlook
      split at hlook
      · rw [show s.strongCache.lookup cs = none from hlook] at he
        cases he
      · simp only at hlook
        rw [demote_lookup] at hlook
        by_cases hcs : cs = k
        · rw [if_pos hcs] at hlook
          have hset : (s.setEntry k { ek with manualRefs := ek.manualRefs - 1 }).strongCache.lookup k
              = some { ek with manualRefs := ek.manualRefs - 1 } := Dict.lookup_set_self _ _ _
          rw [hset, Option.filter_some] at hlook
          -- demotion drops an entry only without claims and without interest
          have hcan : canDemote P.float { ek with manualRefs := ek.manualRefs - 1 } now = true := by
            by_contra hno
            simp [hno] at hlook
          simp only [canDemote, Bool.and_eq_true, beq_iff_eq, Bool.not_eq_true'] at hcan
          refine ⟨hcs.symm, ek, by rw [hcs]; exact hk, ?_, hcan.1.2, hcan.2⟩
          omega
        · rw [if_neg hcs] at hlook
          have hother : (s.setEntry k { ek with manualRefs := ek.manualRefs - 1 }).strongCache.lookup cs
              = s.strongCache.lookup cs := Dict.lookup_set_ne _ _ hcs
          rw [hother, he] at hlook
          cases hlook
  | decrefRefholder k now =>
    have hlook : (decrefRefholder P s k now).1.strongCache.lookup cs = none :=
      coreAt_eq_none.mp hgone
    unfold decrefRefholder at hlook
    simp only at hlook
    split at hlook
    · rw [show s.strongCache.lookup cs = none from hlook] at he
      cases he
    · split at hlook
      · next hone =>
        simp only at hlook
        rw [demote_lookup] at hlook
        have hdrop : (s.dropCount k).strongCache = s.strongCache := rfl
        by_cases hcs : cs = k
        · rw [if_pos hcs] at hlook
          have hk : s.strongCache.lookup k = some e := by
            rw [← hcs]
            exact he
          have hset : ((s.dropCount k).updateEntry k fun e =>
              { e with hasRefholderBridge := false }).strongCache.lookup k
                = some { e with hasRefholderBridge := false } := by
            unfold updateEntry
            rw [hdrop, hk]
            exact Dict.lookup_set_self _ _ _
          rw [hset, Option.filter_some] at hlook
          have hcan : canDemote P.float { e with hasRefholderBridge := false } now = true := by
            by_contra hno
            simp [hno] at hlook
          simp only [canDemote, Bool.and_eq_true, beq_iff_eq, Bool.not_eq_true'] at hcan
          exact ⟨hcs.symm, by rw [hcs]; exact hone, e, he, hcan.1.1, hcan.2⟩
        · rw [if_neg hcs] at hlook
          have hother : ((s.dropCount k).updateEntry k fun e =>
              { e with hasRefholderBridge := false }).strongCache.lookup cs
                = s.strongCache.lookup cs := by
            unfold updateEntry
            rw [hdrop]
            cases s.strongCache.lookup k with
            | none => rfl
            | some ek => exact Dict.lookup_set_ne _ _ hcs
          rw [hother, he] at hlook
          cases hlook
      · rw [show s.strongCache.lookup cs = none from hlook] at he
        cases he

/-! ## §4. Duties. -/

/-- A successful non-scratch manual reference on `cs`. -/
def isPublishingIncref (cs : Checksum) : Op Checksum Buffer F × Outcome Buffer → Bool
  | (.incref k _ false, .done) => k = cs
  | _ => false

/-- A successful non-scratch refholder claim on `cs`. -/
def isPublishingAcquire (cs : Checksum) : Op Checksum Buffer F × Outcome Buffer → Bool
  | (.increfRefholder k _ (some false), .done) => k = cs
  | _ => false

/-- A successful transfer write of `cs`. -/
def isTransferWrite (cs : Checksum) : Op Checksum Buffer F × Outcome Buffer → Bool
  | (.transferWrite k _, .done) => k = cs
  | _ => false

/-- What a run obliges the cache to publish.  A non-scratch claim counts as
held until the count it is part of is back at zero. -/
structure Duty where
  claims : Claims
  ownsManual : Bool
  ownsHolders : Bool
  transferred : Bool

/-- The duty for `cs` after one more operation. -/
def Duty.next (cs : Checksum) (d : Duty) (e : Op Checksum Buffer F × Outcome Buffer) : Duty :=
  let claims := d.claims.book cs e
  { claims := claims
    ownsManual := (d.ownsManual || isPublishingIncref cs e) && decide (0 < claims.manual)
    ownsHolders := (d.ownsHolders || isPublishingAcquire cs e) && decide (0 < claims.holders)
    transferred := d.transferred || isTransferWrite cs e }

/-- The duty for `cs` after a run. -/
def duty (cs : Checksum) (tr : List (Op Checksum Buffer F × Outcome Buffer)) : Duty :=
  tr.foldl (Duty.next cs) ⟨⟨0, false, 0⟩, false, false, false⟩

/-- A non-scratch claim on the checksum is still held. -/
def Duty.held (d : Duty) : Bool := d.ownsManual || d.ownsHolders

omit P in
theorem duty_snoc (cs : Checksum) (tr : List (Op Checksum Buffer F × Outcome Buffer))
    (e : Op Checksum Buffer F × Outcome Buffer) :
    duty cs (tr ++ [e]) = (duty cs tr).next cs e := by
  unfold duty
  rw [List.foldl_append]
  rfl

/-- The duty for every checksum is met or pending. -/
structure DutiesMet (tr : List (Op Checksum Buffer F × Outcome Buffer))
    (s : BufferCache Checksum Buffer F) : Prop where
  well : WellClaimed s
  tidy : Tidy P s
  claims : ∀ cs, (duty cs tr).claims = claimsAt s cs
  held : ∀ cs, (duty cs tr).held = true → ∃ b, coreAt s cs = some (b, true)
  transferred : ∀ cs, (duty cs tr).transferred = true → Handed P s cs ∨ Pending s cs

/-- The condition on a step: it is loud, and it does not remove an entry that
waits for the buffer of a transfer write. -/
def Safe (tr : List (Op Checksum Buffer F × Outcome Buffer)) (s : BufferCache Checksum Buffer F)
    (op : Op Checksum Buffer F) : Prop :=
  Loud P s op ∧
    ∀ cs, (duty cs tr).transferred = true → ¬ Handed P s cs → ¬ Drops P s op cs

omit P in
/-- A checksum with claims has a strong entry. -/
theorem exists_core_of_claims {s : BufferCache Checksum Buffer F} (hs : WellClaimed s)
    {cs : Checksum} (h : 0 < manualRefs s cs ∨ 0 < refholderCount s cs) :
    ∃ c, coreAt s cs = some c := by
  by_contra hno
  have hnone : s.strongCache.lookup cs = none := by
    rw [← coreAt_eq_none]
    by_contra hne
    exact hno (Option.ne_none_iff_exists'.mp hne)
  obtain ⟨-, -, hiff⟩ := hs cs
  rcases h with h | h
  · simp [manualRefs, hnone] at h
  · have hbridge := hiff.mpr h
    simp [hasBridge, hnone] at hbridge

/-- A publishing operation that succeeds leaves a flagged entry. -/
theorem flagged_of_publishing {s : BufferCache Checksum Buffer F} {op : Op Checksum Buffer F}
    {cs : Checksum} {arg : Option (BufferArg Buffer)} (hens : ensures op = some (cs, arg, false))
    (hdone : (step P s op).2 = .done) : ∃ b, coreAt (step P s op).1 cs = some (b, true) := by
  obtain ⟨s₀, update, h₀, hup, hstep⟩ := step_of_ensures P s hens
  rw [hstep] at hdone ⊢
  rcases withEntry_stores P s₀ cs arg false update hup with ⟨hout, -⟩ | ⟨-, -, hcore, -⟩
  · rw [hout] at hdone
    cases hdone
  · refine ⟨(attachCore (coreAt (getChecksum P s₀ arg) cs) (bufferOf s₀ cs arg) true).1, ?_⟩
    rw [hcore, if_pos rfl, Option.some.injEq]
    unfold attachCore
    split
    · rfl
    · next old flag hold => simp

/-- One safe step meets or keeps every duty. -/
theorem step_dutiesMet {tr : List (Op Checksum Buffer F × Outcome Buffer)}
    {s : BufferCache Checksum Buffer F} (hs : DutiesMet P tr s) {op : Op Checksum Buffer F}
    (hsafe : Safe P tr s op) :
    DutiesMet P (tr ++ [(op, (step P s op).2)]) (step P s op).1 := by
  obtain ⟨hloud, hkeep⟩ := hsafe
  have hwell := step_wellClaimed P hs.well op
  have htidy := step_tidy P hs.tidy hloud
  have hclaims : ∀ cs, (duty cs (tr ++ [(op, (step P s op).2)])).claims
      = claimsAt (step P s op).1 cs := by
    intro cs
    rw [duty_snoc, step_books P hs.well op cs, ← hs.claims cs]
    rfl
  -- a flag outlives the step with its entry
  have hpersist : ∀ cs, (∃ b, coreAt s cs = some (b, true)) →
      (∃ c, coreAt (step P s op).1 cs = some c) →
      ∃ b, coreAt (step P s op).1 cs = some (b, true) := by
    intro cs hflag hstays
    obtain ⟨b, hb⟩ := hflag
    obtain ⟨⟨b', flag⟩, hc⟩ := hstays
    have hflag := step_flag P s op hb hc
    exact ⟨b', by rw [hc, hflag]⟩
  refine ⟨hwell, htidy, hclaims, fun cs hheld => ?_, fun cs htrans => ?_⟩
  · have hcl := hclaims cs
    rw [duty_snoc] at hheld hcl
    unfold Duty.held Duty.next at hheld
    simp only [Bool.or_eq_true, Bool.and_eq_true, decide_eq_true_eq] at hheld
    have hm : ((duty cs tr).claims.book cs (op, (step P s op).2)).manual
        = manualRefs (step P s op).1 cs := congrArg Claims.manual hcl
    have hh : ((duty cs tr).claims.book cs (op, (step P s op).2)).holders
        = refholderCount (step P s op).1 cs := congrArg Claims.holders hcl
    rw [hm, hh] at hheld
    have hstays : ∃ c, coreAt (step P s op).1 cs = some c := by
      apply exists_core_of_claims hwell
      rcases hheld with ⟨-, h⟩ | ⟨-, h⟩
      · exact Or.inl h
      · exact Or.inr h
    rcases hheld with ⟨hown | hnew, -⟩ | ⟨hown | hnew, -⟩
    · exact hpersist cs (hs.held cs (by simp [Duty.held, hown])) hstays
    · cases op with
      | incref k arg scratch =>
        cases scratch with
        | true => cases hnew
        | false =>
          cases hout : (step P s (.incref k arg false)).2 with
          | done =>
            rw [hout] at hnew
            have hk : k = cs := by simpa [isPublishingIncref] using hnew
            rw [← hk]
            exact flagged_of_publishing P rfl hout
          | _ =>
            rw [hout] at hnew
            simp [isPublishingIncref] at hnew
      | _ => simp [isPublishingIncref] at hnew
    · exact hpersist cs (hs.held cs (by simp [Duty.held, hown])) hstays
    · cases op with
      | increfRefholder k arg scratch =>
        rcases scratch with _ | _ | _
        · cases hnew
        · cases hout : (step P s (.increfRefholder k arg (some false))).2 with
          | done =>
            rw [hout] at hnew
            have hk : k = cs := by simpa [isPublishingAcquire] using hnew
            rw [← hk]
            exact flagged_of_publishing P rfl hout
          | _ =>
            rw [hout] at hnew
            simp [isPublishingAcquire] at hnew
        · cases hnew
      | _ => simp [isPublishingAcquire] at hnew
  · -- a flagged entry waits for its buffer, or its buffer has been written
    have hflagged : (∃ b, coreAt (step P s op).1 cs = some (b, true)) →
        Handed P (step P s op).1 cs ∨ Pending (step P s op).1 cs := by
      intro h
      obtain ⟨b, hb⟩ := h
      cases b with
      | none => exact Or.inr hb
      | some b => exact Or.inl (htidy.flagged_handed cs b hb)
    rw [duty_snoc] at htrans
    unfold Duty.next at htrans
    simp only [Bool.or_eq_true] at htrans
    rcases htrans with hold | hnew
    · by_cases hhanded : Handed P s cs
      · exact Or.inl (hhanded.mono P (step_written P s op))
      · have hpending : Pending s cs := by
          rcases hs.transferred cs hold with h | h
          · exact absurd h hhanded
          · exact h
        apply hflagged
        apply hpersist cs ⟨none, hpending⟩
        by_contra hno
        have hgone : coreAt (step P s op).1 cs = none := by
          by_contra hne
          exact hno (Option.ne_none_iff_exists'.mp hne)
        exact hkeep cs hold hhanded (drops_of_removed P hpending hgone)
    · cases op with
      | transferWrite k arg =>
        cases hout : (step P s (.transferWrite k arg)).2 with
        | done =>
          rw [hout] at hnew
          have hk : k = cs := by simpa [isTransferWrite] using hnew
          apply hflagged
          rw [← hk]
          exact flagged_of_publishing P rfl hout
        | _ =>
          rw [hout] at hnew
          simp [isTransferWrite] at hnew
      | _ => simp [isTransferWrite] at hnew

/-! ## §5. Runs. -/

/-- No lost publication.  In every run of safe steps: while a non-scratch claim
on a checksum is held, and once a transfer write of it was made, a buffer in
its strong entry has been handed to the writer; and until that happens a
transfer write is remembered by a flagged entry. -/
theorem publication (ops : List (Op Checksum Buffer F))
    (hsafe : Run.StepsMeet (step P) (Safe P) new ops) (cs : Checksum) :
    (∀ e b, (after P ops).strongCache.lookup cs = some e → e.buffer = some b →
      ((duty cs (history P ops)).held = true ∨ (duty cs (history P ops)).transferred = true) →
      P.checksum b = cs ∧ Handed P (after P ops) cs) ∧
    ((duty cs (history P ops)).transferred = true → ¬ Handed P (after P ops) cs →
      ∃ e, (after P ops).strongCache.lookup cs = some e ∧ e.buffer = none ∧
        e.remoteRegistered = true) := by
  -- a new cache owes nothing
  have hinit : DutiesMet P [] (new : BufferCache Checksum Buffer F) := by
    refine ⟨new_wellClaimed, new_tidy P, fun cs => ?_, fun cs h => ?_, fun cs h => ?_⟩
    · simp [duty, claimsAt, manualRefs, hasBridge, refholderCount, new]
    · simp [duty, Duty.held] at h
    · simp [duty] at h
  have hrun : DutiesMet P (history P ops) (after P ops) :=
    Run.exec_traced_invariant (step P) (Safe P) (DutiesMet P) hinit
      (fun tr s op hs hok => step_dutiesMet P hs hok) ops hsafe
  refine ⟨fun e b he hb hduty => ?_, fun htrans hno => ?_⟩
  · have hcore : coreAt (after P ops) cs = some (some b, e.remoteRegistered) := by
      rw [coreAt, he, ← hb]
      rfl
    refine ⟨hrun.tidy.strong_matches cs b _ hcore, ?_⟩
    rcases hduty with hheld | htrans
    · obtain ⟨b', hflag⟩ := hrun.held cs hheld
      rw [hcore, Option.some.injEq, Prod.mk.injEq] at hflag
      rw [hflag.2] at hcore
      exact hrun.tidy.flagged_handed cs b hcore
    · rcases hrun.transferred cs htrans with h | h
      · exact h
      · -- a write that is still owed has no buffer, and this entry has one
        unfold Pending at h
        rw [hcore] at h
        cases h
  · rcases hrun.transferred cs htrans with h | h
    · exact absurd h hno
    · obtain ⟨e, he, hcore⟩ := Option.map_eq_some_iff.mp h
      unfold StrongEntry.core at hcore
      rw [Prod.mk.injEq] at hcore
      exact ⟨e, he, hcore.1, hcore.2⟩

/-! ### Small runs. -/

/-- Integers for floats: the runs below have no temprefs. -/
def intOps : FloatOps Int where
  ofInt := id
  add := (· + ·)
  sub := (· - ·)
  mul := (· * ·)
  div := (· / ·)
  pow a n := a ^ n.toNat
  lt a b := decide (a < b)
  le a b := decide (a ≤ b)
  isInf _ := false
  inf := 0

/-- A cache of numbers, each its own checksum. -/
def numberCache : CacheParams Nat Nat Int where
  checksum := id
  contentLength := id
  lengthAttr _ := none
  float := intOps
  softCap := 100

/-- A transfer write before its buffer: the buffer is written on arrival. -/
theorem publication_transferWrite :
    Handed numberCache (after numberCache [.transferWrite 1 none, .register 1 1 none]) 1 := by
  have hloud : ∀ tr s (op : Op Nat Nat Int), (∀ k b n, op = .register k b n → b = k) →
      (∀ k b, ensures op ≠ some (k, some ⟨b, false⟩, true)) → (∀ cs, ¬ Drops numberCache s op cs) →
      Safe numberCache tr s op := by
    intro tr s op hown hens hdrops
    refine ⟨⟨hown, ?_⟩, fun cs _ _ => hdrops cs⟩
    intro hsilent
    obtain ⟨k, b, hkb, -⟩ := hsilent
    exact hens k b hkb
  have hsafe : Run.StepsMeet (step numberCache) (Safe numberCache) new
      ([] ++ [.transferWrite 1 none] ++ [.register 1 1 none]) := by
    refine ((Run.StepsMeet.nil (step numberCache) (Safe numberCache) new).snoc _ ?_).snoc _ ?_
    · exact hloud _ _ _ (by simp) (by simp [ensures]) (fun cs h => h)
    · refine hloud _ _ _ ?_ (by simp [ensures]) (fun cs h => h)
      intro k b n h
      cases h
      rfl
  exact ((publication numberCache [.transferWrite 1 none, .register 1 1 none] hsafe 1).1 _ 1
    rfl rfl (Or.inr rfl)).2

/-- Two runs that lose a transfer write.  A scratch claim that brings the
buffer attaches it unwritten; and a neutral claim that comes and goes takes
the flag with it, so that the buffer is not written on arrival. -/
theorem transferWrite_lost :
    (∃ e, (after numberCache [.transferWrite 1 none, .incref 1 (some ⟨1, false⟩) true]
        ).strongCache.lookup 1 = some e ∧ e.buffer = some 1) ∧
    (duty 1 (history numberCache
      [.transferWrite 1 none, .incref 1 (some ⟨1, false⟩) true])).transferred = true ∧
    ¬ Handed numberCache
      (after numberCache [.transferWrite 1 none, .incref 1 (some ⟨1, false⟩) true]) 1 ∧
    (after numberCache [.transferWrite 1 none, .increfRefholder 1 none none,
      .decrefRefholder 1 0]).strongCache.lookup 1 = none ∧
    ¬ Handed numberCache (after numberCache [.transferWrite 1 none,
      .increfRefholder 1 none none, .decrefRefholder 1 0, .register 1 1 none,
      .incref 1 none true]) 1 := by
  refine ⟨⟨_, rfl, rfl⟩, rfl, ?_, rfl, ?_⟩
  · intro h
    obtain ⟨b, hb, -⟩ := h
    have hnone : (after numberCache [.transferWrite 1 none,
      .incref 1 (some ⟨1, false⟩) true]).written = [] := rfl
    rw [hnone] at hb
    cases hb
  · intro h
    obtain ⟨b, hb, -⟩ := h
    have hnone : (after numberCache [.transferWrite 1 none, .increfRefholder 1 none none,
      .decrefRefholder 1 0, .register 1 1 none, .incref 1 none true]).written = [] := rfl
    rw [hnone] at hb
    cases hb

end SeamlessCore.BufferCache
