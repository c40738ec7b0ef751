/-
  SeamlessCore.Checksum.ParseCache — what the cached parser gives.

  `parse_buffer_cache` keeps the values that were parsed with `copy=False`.  The
  caller refers to such a value as well, but it is not the caller's to change; and a
  value that the caller may change in place is in no entry.

  `text_validation_celltype_cache`, which remembers that a text of a checksum is
  valid for a celltype, is left out: every parse validates its text.

  Main results:
    * `step_private` — what every call keeps;
    * `parsed_unspoiled` — in every run, what is obtained is what parsing gave.

  Source: `seamless/checksum/parse_buffer.py`.
-/
import SeamlessCore.Checksum.SerializeCache

namespace SeamlessCore

open Python

namespace Process

variable {L : Libraries}

/-! ## §1. The invariant. -/

/-- One of the calls parsed a buffer of the checksum and celltype to the value. -/
def Parsed (calls : List (Call L)) (c : Checksum) (t : Celltype) (v : Held L) : Prop :=
  ∃ isAsync stored b copy i, .parseBuffer isAsync stored b c t copy i ∈ calls ∧
    L.parseHeld stored b c t = some v

/-- Entries have the value that was parsed for them, and the caller owns none that
can be changed in place. -/
structure Private (calls : List (Call L)) (s : Process L) : Prop where
  parsed : ∀ e ∈ s.parseBufferCache.entries, Parsed calls e.1.1 e.1.2 (s.value e.2)
  unowned : ∀ e ∈ s.parseBufferCache.entries, e.2 ∈ s.owned → (s.value e.2).isMutable = false

theorem initial_private : (initial : Process L).Private [] := by
  constructor
  · intro e he
    exact absurd he List.not_mem_nil
  · intro e he
    exact absurd he List.not_mem_nil

theorem Parsed.mono {calls calls' : List (Call L)} {c : Checksum} {t : Celltype} {v : Held L}
    (h : Parsed calls c t v) (hsub : calls ⊆ calls') : Parsed calls' c t v := by
  obtain ⟨isAsync, stored, b, copy, i, hmem, hparse⟩ := h
  exact ⟨isAsync, stored, b, copy, i, hsub hmem, hparse⟩

/-- The entries that stay keep their values, and what is new of the caller's is not
among them. -/
theorem Private.frame {calls calls' : List (Call L)} {s s' : Process L} (hs : s.Private calls)
    (hcalls : calls ⊆ calls')
    (hentries : ∀ e ∈ s'.parseBufferCache.entries, e ∈ s.parseBufferCache.entries)
    (hvalue : ∀ e ∈ s.parseBufferCache.entries, s'.value e.2 = s.value e.2)
    (howned : ∀ e ∈ s.parseBufferCache.entries, e.2 ∈ s'.owned →
      e.2 ∈ s.owned ∨ (s.value e.2).isMutable = false) : s'.Private calls' := by
  constructor
  · intro e he
    rw [hvalue e (hentries e he)]
    exact (hs.parsed e (hentries e he)).mono hcalls
  · intro e he hmem
    rw [hvalue e (hentries e he)]
    exact (howned e (hentries e he) hmem).elim (hs.unowned e (hentries e he)) id

/-- An entry that is parsed by the call may be added. -/
theorem Private.set {calls : List (Call L)} {s s' : Process L} (hs : s.Private calls)
    {c : Checksum} {t : Celltype} {i : Ident}
    (hcache : s'.parseBufferCache = s.parseBufferCache.set (c, t) i)
    (hvalue : s'.value = s.value) (howned : s'.owned = s.owned)
    (hparsed : Parsed calls c t (s.value i))
    (hunowned : i ∈ s.owned → (s.value i).isMutable = false) : s'.Private calls := by
  constructor
  · intro e he
    rw [hcache] at he
    rw [hvalue]
    rcases Lru.mem_set he with heq | hold
    · rw [heq]
      exact hparsed
    · exact hs.parsed e hold.2
  · intro e he hmem
    rw [hcache] at he
    rw [howned] at hmem
    rw [hvalue]
    rcases Lru.mem_set he with heq | hold
    · rw [heq] at hmem ⊢
      exact hunowned hmem
    · exact hs.unowned e hold.2 hmem

/-- A new value is in no entry, or is an immutable one that was there already. -/
theorem place_entries {s : Process L} {i : Ident} {v : Held L} (hplace : s.CanPlace i v) :
    ∀ e ∈ s.parseBufferCache.entries, (s.place i v).value e.2 = s.value e.2 ∧
      (e.2 = i → (s.value e.2).isMutable = false) := by
  intro e he
  show Function.update s.value i v e.2 = _ ∧ _
  by_cases hi : e.2 = i
  · rw [hi, Function.update_self]
    rcases hplace with hfresh | ⟨himmutable, hequal⟩
    · -- the entry keeps its value alive
      exact absurd (Or.inr (Or.inr (List.mem_map.mpr ⟨e, he, hi⟩))) hfresh
    · rw [hequal]
      exact ⟨rfl, fun _ => himmutable⟩
  · exact ⟨Function.update_of_ne hi _ _, fun h => absurd h hi⟩

theorem place_private {calls : List (Call L)} {s : Process L} (hs : s.Private calls)
    {i : Ident} {v : Held L} (hplace : s.CanPlace i v) : (s.place i v).Private calls :=
  hs.frame (fun _ h => h) (fun _ he => he) (fun e he => (place_entries hplace e he).1)
    fun _ _ hmem => .inl hmem

/-- The caller may own a new value. -/
theorem own_private {calls : List (Call L)} {s s' : Process L} (hs : s.Private calls)
    {i : Ident} {v : Held L} (hplace : s.CanPlace i v)
    (hentries : ∀ e ∈ s'.parseBufferCache.entries, e ∈ s.parseBufferCache.entries)
    (hvalue : s'.value = (s.place i v).value) (howned : s'.owned = i :: s.owned) :
    s'.Private calls := by
  refine hs.frame (fun _ h => h) hentries (fun e he => ?_) fun e he hmem => ?_
  · rw [hvalue]
    exact (place_entries hplace e he).1
  · rw [howned] at hmem
    rcases List.mem_cons.mp hmem with hi | hold
    · exact .inr ((place_entries hplace e he).2 hi)
    · exact .inl hold

/-- What the parse cache does not see -/
theorem Private.same {calls : List (Call L)} {s s' : Process L} (hs : s.Private calls)
    (hcache : s'.parseBufferCache = s.parseBufferCache) (hvalue : s'.value = s.value)
    (howned : s'.owned = s.owned) : s'.Private calls := by
  refine hs.frame (fun _ h => h) (fun e he => ?_) (fun _ _ => ?_) fun e _ hmem => .inl ?_
  · rwa [hcache] at he
  · rw [hvalue]
  · rwa [howned] at hmem

/-! ## §2. Every call keeps it. -/

/-- Only values of the caller are changed, and they are in no entry. -/
theorem changed_private {calls : List (Call L)} {s : Process L} (hs : s.Private calls)
    {changes : List (Ident × Held L)} (hmay : s.MayChange changes) :
    (s.changed changes).Private calls := by
  refine hs.frame (fun _ h => h) (fun _ he => he) (fun e he => ?_) fun _ _ hmem => .inl hmem
  have hother : ∀ change ∈ changes, change.1 ≠ e.2 := by
    intro change hchange heq
    obtain ⟨howned, hmutable⟩ := hmay change hchange
    rw [heq] at howned hmutable
    rw [hs.unowned e he howned] at hmutable
    cases hmutable
  show changes.foldl _ s.value e.2 = s.value e.2
  clear hmay
  generalize s.value = value
  induction changes generalizing value with
  | nil => rfl
  | cons change changes ih =>
    rw [List.foldl_cons, ih (fun c hc => hother c (List.mem_cons_of_mem _ hc))]
    exact Function.update_of_ne (hother change List.mem_cons_self).symm _ _

theorem serializeSync_private {calls : List (Call L)} {s : Process L} (hs : s.Private calls)
    (i : Ident) (t : Celltype) (useCache : Bool) :
    (s.serializeSync i t useCache).1.Private calls := by
  unfold serializeSync runSerialize
  split
  · split
    · exact hs.same rfl rfl rfl
    · split
      · exact hs
      · exact hs.same rfl rfl rfl
  · exact hs

theorem serialize_private {calls : List (Call L)} {s : Process L} (hs : s.Private calls)
    (i : Ident) (t : Celltype) (useCache : Bool) :
    (s.serialize i t useCache).1.Private calls := by
  unfold serialize
  split
  · exact hs
  · exact serializeSync_private hs i t useCache

variable [DecidableEq (Held L)]

theorem serializeMade_private {calls : List (Call L)} {s : Process L} (hs : s.Private calls)
    (made : Ident) (v : Held L) (t : Celltype) :
    (s.serializeMade made v t).1.Private calls := by
  unfold serializeMade
  split
  next hplace => exact serializeSync_private (place_private hs hplace) made t true
  next => exact hs

theorem newBuffer_private {calls : List (Call L)} {s : Process L} (hs : s.Private calls)
    (i : Ident) (t : Celltype) (made : Ident) : (s.newBuffer i t made).1.Private calls := by
  unfold newBuffer
  split
  · exact serializeMade_private hs made _ t
  · split
    · exact serializeSync_private hs i t true
    · exact hs
  · exact serializeSync_private hs i t true

theorem newDeepBuffer_private {calls : List (Call L)} {s : Process L} (hs : s.Private calls)
    (i made : Ident) : (s.newDeepBuffer i made).1.Private calls := by
  unfold newDeepBuffer
  split
  · exact serializeMade_private hs made _ .plain
  · exact hs
  · exact serializeMade_private hs made _ .plain
  · exact serializeSync_private hs i .plain true

/-- A value that the parser gave is that of a parsed buffer, and is the caller's own
where a copy was asked for. -/
def Given (calls : List (Call L)) (c : Checksum) (t : Celltype) (copy : Bool) (s : Process L) :
    Output L → Prop
  | .obtained j => Parsed calls c t (s.value j) ∧ (copy = true → j ∈ s.owned)
  | _ => True

/-- A parse keeps the invariant, and gives what a buffer was parsed to. -/
theorem parseBuffer_private {calls : List (Call L)} {s : Process L} (hs : s.Private calls)
    {isAsync : Bool} {stored : Option HashType} {b : Bytes} {c : Checksum} {t : Celltype}
    {copy : Bool} {i : Ident} (hcall : .parseBuffer isAsync stored b c t copy i ∈ calls) :
    (s.parseBuffer isAsync stored b c t copy i).1.Private calls ∧
      Given calls c t copy (s.parseBuffer isAsync stored b c t copy i).1
        (s.parseBuffer isAsync stored b c t copy i).2 := by
  have hself : ∀ v, (s.place i v).value i = v := by
    intro v
    show Function.update s.value i v i = v
    rw [Function.update_self]
  unfold parseBuffer
  simp only
  cases hcached : s.cachedValue isAsync c t copy with
  | some j =>
    have hentry : s.parseBufferCache.lookup (c, t) = some j := by
      unfold cachedValue at hcached
      cases hlookup : s.parseBufferCache.lookup (c, t) with
      | none =>
        rw [hlookup] at hcached
        cases hcached
      | some j' =>
        rw [hlookup] at hcached
        dsimp only at hcached
        split at hcached
        · cases hcached
        · split at hcached
          · cases hcached
          · exact hcached
    have hmem := (s.parseBufferCache.mem_entries_iff _ _).mpr hentry
    have hparsed := hs.parsed _ hmem
    dsimp only
    by_cases hcopy : copy = true
    · rw [if_pos hcopy]
      by_cases hplace : s.CanPlace i (s.value j)
      · rw [if_pos hplace]
        refine ⟨own_private hs hplace (fun e he => Lru.mem_touch he) rfl rfl, ?_, fun _ => ?_⟩
        · show Parsed calls c t ((s.place i (s.value j)).value i)
          rw [hself]
          exact hparsed
        · exact List.mem_cons_self
      · rw [if_neg hplace]
        exact ⟨hs, trivial⟩
    · rw [if_neg hcopy]
      refine ⟨hs.frame (fun _ h => h) (fun e he => Lru.mem_touch he) (fun _ _ => rfl)
        fun _ _ hmem => .inl hmem, hparsed, fun h => absurd h hcopy⟩
  | none =>
    have htouched : Private calls
        { s with parseBufferCache := s.parseBufferCache.touch (c, t) } :=
      hs.frame (fun _ h => h) (fun e he => Lru.mem_touch he) (fun _ _ => rfl)
        fun _ _ hmem => .inl hmem
    dsimp only
    cases hparse : L.parseHeld stored b c t with
    | none => exact ⟨htouched, trivial⟩
    | some v =>
      have hparsed : Parsed calls c t ((s.place i v).value i) := by
        rw [hself]
        exact ⟨isAsync, stored, b, copy, i, hcall, hparse⟩
      dsimp only
      by_cases hplace : s.CanPlace i v
      · rw [if_pos hplace]
        by_cases hcopy : copy = true
        · rw [if_pos hcopy]
          exact ⟨own_private hs hplace (fun e he => Lru.mem_touch he) rfl rfl, hparsed,
            fun _ => List.mem_cons_self⟩
        · rw [if_neg hcopy]
          refine ⟨?_, hparsed, fun h => absurd h hcopy⟩
          -- the value is shared with the caller, who does not own it
          have hunowned : i ∈ s.owned → ((s.place i v).value i).isMutable = false := by
            intro howned
            rw [hself]
            rcases hplace with hfresh | ⟨himmutable, -⟩
            · exact absurd (Or.inl (Or.inl howned)) hfresh
            · exact himmutable
          have htouched' : Private calls
              { s.place i v with parseBufferCache := s.parseBufferCache.touch (c, t) } :=
            (place_private hs hplace).frame (fun _ h => h) (fun e he => Lru.mem_touch he)
              (fun _ _ => rfl) fun _ _ hmem => .inl hmem
          by_cases htext : t ∈ textTypes2
          · exact htouched'.same (if_pos htext) rfl rfl
          · exact htouched'.set (if_neg htext) rfl rfl hparsed hunowned
      · rw [if_neg hplace]
        exact ⟨hs, trivial⟩

theorem step_private {calls : List (Call L)} {s : Process L} (hs : s.Private calls)
    (call : Call L) : (step s call).1.Private (calls ++ [call]) := by
  -- a call that is recorded and does nothing leaves the values apart
  have hs' : s.Private (calls ++ [call]) :=
    hs.frame (List.subset_append_left _ _) (fun _ he => he) (fun _ _ => rfl)
      fun _ _ hmem => .inl hmem
  cases call with
  | create i v =>
    show (if s.CanPlace i v then _ else _ : Process L × Output L).1.Private _
    by_cases hplace : s.CanPlace i v
    · rw [if_pos hplace]
      exact own_private hs' hplace (fun _ he => he) rfl rfl
    · rw [if_neg hplace]
      exact hs'
  | drop i =>
    exact hs'.frame (fun _ h => h) (fun _ he => he) (fun _ _ => rfl)
      fun _ _ hmem => .inl (List.mem_filter.mp hmem).1
  | mutate changes =>
    show (if s.MayChange changes then _ else _ : Process L × Output L).1.Private _
    by_cases hmay : s.MayChange changes
    · rw [if_pos hmay]
      exact changed_private hs' hmay
    · rw [if_neg hmay]
      exact hs'
  | serializeSync i t useCache =>
    show (if s.Holds i then _ else _ : Process L × Output L).1.Private _
    split
    · exact serializeSync_private hs' i t useCache
    · exact hs'
  | serialize i t useCache =>
    show (if s.Holds i then _ else _ : Process L × Output L).1.Private _
    split
    · exact serialize_private hs' i t useCache
    · exact hs'
  | newBuffer i t made =>
    show (if s.Holds i then _ else _ : Process L × Output L).1.Private _
    split
    · exact newBuffer_private hs' i t made
    · exact hs'
  | newDeepBuffer i made =>
    show (if s.Holds i then _ else _ : Process L × Output L).1.Private _
    split
    · exact newDeepBuffer_private hs' i made
    · exact hs'
  | parseBuffer isAsync stored b c t copy i =>
    exact (parseBuffer_private hs' (List.mem_append_right _ List.mem_cons_self)).1

theorem after_private (calls : List (Call L)) : (after calls).Private calls := by
  induction calls using List.reverseRecOn with
  | nil => exact initial_private
  | append_singleton calls call ih =>
    unfold after
    rw [Run.exec_snoc]
    exact step_private ih call

/-- In every run, a parse gives what a buffer with its checksum was parsed to, now or
before; a copy is the caller's own, and what the caller may change is in no entry. -/
theorem parsed_unspoiled (calls : List (Call L)) :
    (∀ isAsync stored b c t copy i j,
      (step (after calls) (.parseBuffer isAsync stored b c t copy i)).2 = .obtained j →
      Parsed (calls ++ [.parseBuffer isAsync stored b c t copy i]) c t
          ((step (after calls) (.parseBuffer isAsync stored b c t copy i)).1.value j) ∧
        (copy = true →
          j ∈ (step (after calls) (.parseBuffer isAsync stored b c t copy i)).1.owned)) ∧
    ∀ j ∈ (after calls).owned, ((after calls).value j).isMutable = true →
      j ∉ (after calls).parseBufferCache.entries.map Prod.snd := by
  have hs := after_private calls
  constructor
  · intro isAsync stored b c t copy i j hobtained
    have hs' : (after calls).Private (calls ++ [.parseBuffer isAsync stored b c t copy i]) :=
      hs.frame (List.subset_append_left _ _) (fun _ he => he) (fun _ _ => rfl)
        fun _ _ hmem => .inl hmem
    have hgiven := (parseBuffer_private hs' (List.mem_append_right _ List.mem_cons_self)).2
    have hobtained' : ((after calls).parseBuffer isAsync stored b c t copy i).2 = .obtained j :=
      hobtained
    rw [hobtained'] at hgiven
    exact hgiven
  · intro j howned hmutable hmem
    obtain ⟨e, he, rfl⟩ := List.mem_map.mp hmem
    rw [hs.unowned e he howned] at hmutable
    cases hmutable

/-- The JSON text of a dict -/
def formBuffer : Bytes := ascii "\x7b\"type\": \"object\", \"properties\": \x7b\x7d\x7d"

/-- The dict -/
def formDict : Held Small.base :=
  .value (.dict [(.str (py "type"), .str (py "object")), (.str (py "properties"), .dict [])])

/-- The dict is parsed without a copy, and then copied for the caller, who empties
the copy. -/
def dictCalls : List (Call Small.base) :=
  [.parseBuffer false none formBuffer (Checksum.repeated 1) .plain false 0,
    .parseBuffer false none formBuffer (Checksum.repeated 1) .plain true 1,
    .mutate [(1, .value (.dict []))]]

/-- One more parse -/
def dictAgain : Call Small.base :=
  .parseBuffer false none formBuffer (Checksum.repeated 1) .plain false 2

open Classical in
/-- The copy is taken from the cache, and its change does not reach the dict in
the cache. -/
theorem parsedDict_unspoiled :
    (after dictCalls).value 1 = .value (.dict []) ∧ 1 ∈ (after dictCalls).owned ∧
      (step (after dictCalls) dictAgain).2 = .obtained 0 ∧
      (step (after dictCalls) dictAgain).1.value 0 = formDict ∧
      Parsed (dictCalls ++ [dictAgain]) (Checksum.repeated 1) .plain formDict ∧
      1 ∉ (after dictCalls).parseBufferCache.entries.map Prod.snd := by
  have hchanged : (after dictCalls).value 1 = .value (.dict []) := rfl
  have howned : 1 ∈ (after dictCalls).owned := List.mem_singleton.mpr rfl
  have hagain : (step (after dictCalls) dictAgain).2 = .obtained 0 := rfl
  have hvalue : (step (after dictCalls) dictAgain).1.value 0 = formDict := rfl
  have hgiven := (parsed_unspoiled dictCalls).1 false none _ _ _ false 2 0 hagain
  refine ⟨hchanged, howned, hagain, hvalue, hvalue ▸ hgiven.1, ?_⟩
  apply (parsed_unspoiled dictCalls).2 1 howned
  rw [hchanged]
  rfl

end Process

end SeamlessCore
