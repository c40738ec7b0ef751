/-
  SeamlessCore.Checksum.SerializeCache — the caches around serialization.

  `serialize_cache` maps the identity of a value and a celltype to a buffer.
  The serializer fills it with the bytes that it made, the parser with the
  `Buffer` that it read.  An entry refers to its value, so the identity is not
  used again while the entry is there; but the value may change in place.

  Main results:
    * `step_coherent` — what keeps every entry right;
    * `serializeCache_coherent` — all calls of a run return what `_serialize`
      would return, exactly when no mutation changes what is serialized from a
      cached value and no parsed buffer is cached that is not canonical;
    * `mutatedArray_stale` — an array that is changed after it was serialized.

  Source: `seamless/checksum/serialize.py`, `parse_buffer.py`,
  `seamless/buffer_class.py`.
-/
import SeamlessCore.Checksum.Serialize
import SeamlessCore.Checksum.Small
import SeamlessCore.Lib.Lru
import SeamlessCore.Lib.Run

namespace SeamlessCore

open Python

/-! ## §1. Values with an identity. -/

/-- `id(value)` -/
abbrev Ident := Nat

/-- What can be passed for serialization: a value, or a `Buffer`, which is also what
the parser returns for `bytes`. -/
inductive Held (L : Libraries) where
  | value (v : L.Value)
  | buffer (b : Bytes)

/-- Values that can be changed in place. -/
def Held.isMutable {L : Libraries} : Held L → Bool
  | .value (.list _) | .value (.dict _) | .value (.array _) | .value (.object _) => true
  | _ => false

namespace Libraries

variable (L : Libraries)

/-- `_serialize(value, celltype)` of a `Buffer`, whose `str` is that of its content -/
def serializeBuffer (b : Bytes) : Celltype → Option Bytes
  | .str => (L.pyStr (.bytes b)).bind fun s => L.jsonBuffer (.str s)
  | .bool => L.jsonBuffer (.bool (!b.isEmpty))
  | .text | .python | .ipython | .yaml => (L.pyStr (.bytes b)).bind textBuffer
  | .bytes => ((L.pyStr (.bytes b)).bind fun s => encodeUtf8 (rstripNewlines s)).map fun b =>
    if b = [] then nullBuffer else b
  | _ => none

/-- `_serialize(value, celltype)` -/
def serializeHeld : Held L → Celltype → Option Bytes
  | .value v, t => L.serialize v t
  | .buffer b, t => L.serializeBuffer b t

/-- `_parse_buffer(buffer, checksum, celltype)`; for `bytes` the value is the buffer,
if it is not virtual. -/
def parseHeld (stored : Option HashType) (b : Bytes) (c : Checksum) (t : Celltype) :
    Option (Held L) :=
  match L.virtualValue c t, t with
  | .notVirtual, .bytes => (L.parseBuffer stored b c .bytes).map fun _ => .buffer b
  | _, t => (L.parseBuffer stored b c t).map .value

end Libraries

/-- What `serialize` returns: bytes, or a `Buffer` with these bytes. -/
inductive Returned where
  | bytes (b : Bytes)
  | buffer (b : Bytes)
  deriving DecidableEq, Repr

/-- The bytes of an answer; a `Buffer` counts if it is taken as its content. -/
def Returned.content (asContent : Bool) : Returned → Option Bytes
  | .bytes b => some b
  | .buffer b => if asContent then some b else none

/-- The answer is what `_serialize` answers. -/
def Matches (asContent : Bool) (answer : Option Returned) (expected : Option Bytes) : Prop :=
  match answer with
  | none => expected = none
  | some r => ∃ b, r.content asContent = some b ∧ expected = some b

/-- A process: its values, the references of the caller, and the caches. -/
structure Process (L : Libraries) where
  value : Ident → Held L
  /-- References to values that the caller created or got with `copy=True` -/
  owned : List Ident
  /-- References to values that the caller got with `copy=False` -/
  shared : List Ident
  serializeCache : Lru 10 (Ident × Celltype) (Returned × Ident)
  parseBufferCache : Lru 10 (Checksum × Celltype) Ident

/-- What the caller does. -/
inductive Call (L : Libraries) where
  | create (i : Ident) (v : Held L)
  | drop (i : Ident)
  /-- In-place changes, seen in all values of the caller that contain what is changed -/
  | mutate (changes : List (Ident × Held L))
  /-- `serialize_sync(value, celltype, use_cache)` -/
  | serializeSync (i : Ident) (t : Celltype) (useCache : Bool)
  /-- `await serialize(value, celltype, use_cache)` -/
  | serialize (i : Ident) (t : Celltype) (useCache : Bool)
  /-- `Buffer(value, celltype)`; `made` is the content of a `Buffer`. -/
  | newBuffer (i : Ident) (t : Celltype) (made : Ident)
  /-- `Buffer(value, celltype)` for a deep celltype; `made` is a dict made for the call, or
  the content of a `Buffer`. -/
  | newDeepBuffer (i made : Ident)
  /-- `parse_buffer`, or `parse_buffer_sync`, with the identity of what it may make -/
  | parseBuffer (isAsync : Bool) (stored : Option HashType) (b : Bytes) (c : Checksum)
      (t : Celltype) (copy : Bool) (i : Ident)

/-- What the caller gets.  A call that cannot be made is refused. -/
inductive Output (L : Libraries) where
  | refused
  | raised
  | done
  | obtained (i : Ident)
  /-- The value and celltype that were serialized, and the answer -/
  | serialized (v : Held L) (t : Celltype) (answer : Option Returned)

namespace Process

variable {L : Libraries}

def initial : Process L := ⟨fun _ => .value .none, [], [], .empty, .empty⟩

/-- The caller refers to the value. -/
def Holds (s : Process L) (i : Ident) : Prop := i ∈ s.owned ∨ i ∈ s.shared

instance (s : Process L) (i : Ident) : Decidable (s.Holds i) := by
  unfold Holds
  infer_instance

/-- The caller or a cache refers to the value. -/
def Alive (s : Process L) (i : Ident) : Prop :=
  s.Holds i ∨ i ∈ s.serializeCache.entries.map (fun e => e.2.2) ∨
    i ∈ s.parseBufferCache.entries.map Prod.snd

instance (s : Process L) (i : Ident) : Decidable (s.Alive i) := by
  unfold Alive
  infer_instance

/-- A new value gets an identity that is not in use; an immutable one may also
be an equal value that exists. -/
def CanPlace (s : Process L) (i : Ident) (v : Held L) : Prop :=
  ¬ s.Alive i ∨ v.isMutable = false ∧ s.value i = v

instance [DecidableEq (Held L)] (s : Process L) (i : Ident) (v : Held L) :
    Decidable (s.CanPlace i v) := by
  unfold CanPlace
  infer_instance

def place (s : Process L) (i : Ident) (v : Held L) : Process L :=
  { s with value := Function.update s.value i v }

def changed (s : Process L) (changes : List (Ident × Held L)) : Process L :=
  { s with value := changes.foldl (fun value c => Function.update value c.1 c.2) s.value }

/-- The caller may change values that it owns. -/
def MayChange (s : Process L) (changes : List (Ident × Held L)) : Prop :=
  ∀ c ∈ changes, c.1 ∈ s.owned ∧ (s.value c.1).isMutable = true

instance (s : Process L) (changes : List (Ident × Held L)) :
    Decidable (s.MayChange changes) := by
  unfold MayChange
  infer_instance

/-! ## §2. Serialization. -/

/-- `serialize_sync(value, celltype, use_cache)` -/
def runSerialize (s : Process L) (i : Ident) (t : Celltype) (useCache : Bool) :
    Process L × Option Returned :=
  if useCache then
    match s.serializeCache.lookup (i, t) with
    | some entry => ({ s with serializeCache := s.serializeCache.touch (i, t) }, some entry.1)
    | none =>
      match L.serializeHeld (s.value i) t with
      | none => (s, none)
      | some b =>
        ({ s with serializeCache := s.serializeCache.set (i, t) (.bytes b, i) }, some (.bytes b))
  else (s, (L.serializeHeld (s.value i) t).map .bytes)

/-- The call with its output -/
def serializeSync (s : Process L) (i : Ident) (t : Celltype) (useCache : Bool) :
    Process L × Output L :=
  ((s.runSerialize i t useCache).1,
    .serialized (s.value i) t (s.runSerialize i t useCache).2)

/-- `await serialize(value, celltype, use_cache)` -/
def serialize (s : Process L) (i : Ident) (t : Celltype) (useCache : Bool) :
    Process L × Output L :=
  match s.value i with
  -- `assert value is not None`
  | .value .none => (s, .raised)
  | _ => s.serializeSync i t useCache

/-- `v.hex() if isinstance(v, Checksum) else v` -/
def hexChecksum : L.Value → L.Value
  | .checksum c => .str c.hex
  | v => v

variable [DecidableEq (Held L)]

/-- `serialize_sync` of a value that was made for the call -/
def serializeMade (s : Process L) (made : Ident) (v : Held L) (t : Celltype) :
    Process L × Output L :=
  if s.CanPlace made v then (s.place made v).serializeSync made t true else (s, .refused)

/-- `Buffer(value, celltype)` -/
def newBuffer (s : Process L) (i : Ident) (t : Celltype) (made : Ident) : Process L × Output L :=
  match s.value i with
  | .buffer b => s.serializeMade made (.value (.bytes b)) t
  | .value (.checksum _) => if t = .checksum then s.serializeSync i t true else (s, .raised)
  | _ => s.serializeSync i t true

/-- `Buffer(value, celltype)` for a deep celltype, which is serialized as `plain` -/
def newDeepBuffer (s : Process L) (i made : Ident) : Process L × Output L :=
  match s.value i with
  | .buffer b => s.serializeMade made (.value (.bytes b)) .plain
  | .value (.checksum _) => (s, .raised)
  | .value (.dict items) =>
    s.serializeMade made (.value (.dict (items.map fun (k, v) => (k, hexChecksum v)))) .plain
  | _ => s.serializeSync i .plain true

/-! ## §3. Parsing. -/

/-- `text_types2` -/
def textTypes2 : List Celltype := [.text, .python, .ipython, .yaml]

omit [DecidableEq (Held L)] in
/-- The value that `parse_buffer` takes from `parse_buffer_cache`, if any: a cached
`None` does not count, and the asynchronous form copies by parsing again. -/
def cachedValue (s : Process L) (isAsync : Bool) (c : Checksum) (t : Celltype) (copy : Bool) :
    Option Ident :=
  match s.parseBufferCache.lookup (c, t) with
  | none => none
  | some j =>
    match s.value j with
    | .value .none => none
    | _ => if isAsync && copy then none else some j

/-- `parse_buffer(buffer, checksum, celltype, copy)` -/
def parseBuffer (s : Process L) (isAsync : Bool) (stored : Option HashType) (b : Bytes)
    (c : Checksum) (t : Celltype) (copy : Bool) (i : Ident) : Process L × Output L :=
  let s' : Process L := { s with parseBufferCache := s.parseBufferCache.touch (c, t) }
  match s.cachedValue isAsync c t copy with
  | some j =>
    if copy then
      -- `deepcopy(value)`
      if s.CanPlace i (s.value j) then
        ({ s'.place i (s.value j) with owned := i :: s.owned }, .obtained i)
      else (s, .refused)
    else ({ s' with shared := j :: s.shared }, .obtained j)
  | none =>
    match L.parseHeld stored b c t with
    | none => (s', .raised)
    | some v =>
      if s.CanPlace i v then
        if copy then ({ s'.place i v with owned := i :: s.owned }, .obtained i)
        else
          ({ s'.place i v with
              shared := i :: s.shared
              serializeCache := s.serializeCache.set (i, t) (.buffer b, i)
              parseBufferCache :=
                if t ∈ textTypes2 then s'.parseBufferCache
                else s'.parseBufferCache.set (c, t) i }, .obtained i)
      else (s, .refused)

/-! ## §4. Runs. -/

/-- One call -/
def step (s : Process L) : Call L → Process L × Output L
  | .create i v =>
    if s.CanPlace i v then ({ s.place i v with owned := i :: s.owned }, .done)
    else (s, .refused)
  | .drop i =>
    ({ s with
        owned := s.owned.filter fun j => j ≠ i
        shared := s.shared.filter fun j => j ≠ i }, .done)
  | .mutate changes =>
    if s.MayChange changes then (s.changed changes, .done) else (s, .refused)
  | .serializeSync i t useCache =>
    if s.Holds i then s.serializeSync i t useCache else (s, .refused)
  | .serialize i t useCache => if s.Holds i then s.serialize i t useCache else (s, .refused)
  | .newBuffer i t made => if s.Holds i then s.newBuffer i t made else (s, .refused)
  | .newDeepBuffer i made => if s.Holds i then s.newDeepBuffer i made else (s, .refused)
  | .parseBuffer isAsync stored b c t copy i => s.parseBuffer isAsync stored b c t copy i

/-- The process after the calls -/
def after (calls : List (Call L)) : Process L := Run.exec step initial calls

omit [DecidableEq (Held L)] in
/-- A mutation that changes what is serialized from a value in the cache, or a
parsed buffer that enters the cache though `_serialize` would not return it. -/
def Spoils (s : Process L) (asContent : Bool) : Call L → Prop
  | .mutate changes => s.MayChange changes ∧ ∃ e ∈ s.serializeCache.entries,
      L.serializeHeld ((s.changed changes).value e.1.1) e.1.2 ≠ L.serializeHeld (s.value e.1.1) e.1.2
  | .parseBuffer isAsync stored b c t copy i =>
    copy = false ∧ s.cachedValue isAsync c t copy = none ∧
      ∃ v, L.parseHeld stored b c t = some v ∧ s.CanPlace i v ∧
        ¬ Matches asContent (some (.buffer b)) (L.serializeHeld v t)
  | _ => False

end Process

/-- What was serialized is what `_serialize` returns for the value. -/
def Output.Correct {L : Libraries} (asContent : Bool) : Output L → Prop
  | .serialized v t answer => Matches asContent answer (L.serializeHeld v t)
  | _ => True

namespace Process

variable {L : Libraries} {asContent : Bool}

/-! ## §5. The invariant. -/

/-- Every entry refers to the value of its key, and is what `_serialize` returns for it. -/
structure Coherent (asContent : Bool) (s : Process L) : Prop where
  keyed : ∀ e ∈ s.serializeCache.entries, e.2.2 = e.1.1
  right : ∀ e ∈ s.serializeCache.entries,
    Matches asContent (some e.2.1) (L.serializeHeld (s.value e.1.1) e.1.2)

theorem initial_coherent : (initial : Process L).Coherent asContent := by
  constructor
  · intro e he
    exact absurd he List.not_mem_nil
  · intro e he
    exact absurd he List.not_mem_nil

/-- An answer matches one outcome of `_serialize` only. -/
theorem Matches.unique {r : Returned} {x y : Option Bytes} (hx : Matches asContent (some r) x)
    (hy : Matches asContent (some r) y) : x = y := by
  obtain ⟨b, hb, hxb⟩ := hx
  obtain ⟨b', hb', hyb⟩ := hy
  rw [hxb, hyb, ← hb, ← hb']

theorem matches_map (x : Option Bytes) : Matches asContent (x.map .bytes) x := by
  cases x with
  | none => rfl
  | some b => exact ⟨b, rfl, rfl⟩

/-- What the caches hold, and the values of what they hold, matters. -/
theorem Coherent.of_entries {s t : Process L} (hs : s.Coherent asContent)
    (hentries : ∀ e ∈ t.serializeCache.entries, e ∈ s.serializeCache.entries)
    (hvalue : ∀ e ∈ s.serializeCache.entries, t.value e.1.1 = s.value e.1.1) :
    t.Coherent asContent := by
  refine ⟨fun e he => hs.keyed e (hentries e he), fun e he => ?_⟩
  rw [hvalue e (hentries e he)]
  exact hs.right e (hentries e he)

/-- An entry that is right may be added. -/
theorem Coherent.set {s t : Process L} (hs : s.Coherent asContent) {i : Ident} {c : Celltype}
    {r : Returned} (hentries : t.serializeCache = s.serializeCache.set (i, c) (r, i))
    (hvalue : t.value = s.value) (hr : Matches asContent (some r) (L.serializeHeld (s.value i) c)) :
    t.Coherent asContent := by
  constructor
  · intro e he
    rw [hentries] at he
    rcases Lru.mem_set he with heq | hold
    · rw [heq]
    · exact hs.keyed e hold.2
  · intro e he
    rw [hentries] at he
    rw [hvalue]
    rcases Lru.mem_set he with heq | hold
    · rw [heq]
      exact hr
    · exact hs.right e hold.2

/-- A new value is not that of an entry, or was there already. -/
theorem place_value {s : Process L} (hs : s.Coherent asContent) {i : Ident} {v : Held L}
    (hplace : s.CanPlace i v) :
    ∀ e ∈ s.serializeCache.entries, (s.place i v).value e.1.1 = s.value e.1.1 := by
  intro e he
  show Function.update s.value i v e.1.1 = _
  by_cases hi : e.1.1 = i
  · rw [hi, Function.update_self]
    rcases hplace with hfresh | ⟨-, hequal⟩
    · -- the entry keeps its value alive
      refine absurd (Or.inr (Or.inl (List.mem_map.mpr ⟨e, he, ?_⟩))) hfresh
      rw [hs.keyed e he, hi]
    · exact hequal.symm
  · exact Function.update_of_ne hi _ _

theorem place_coherent {s : Process L} (hs : s.Coherent asContent) {i : Ident} {v : Held L}
    (hplace : s.CanPlace i v) : (s.place i v).Coherent asContent :=
  hs.of_entries (fun _ he => he) (place_value hs hplace)

/-! ## §6. Serialization keeps it, and answers right. -/

theorem runSerialize_coherent {s : Process L} (hs : s.Coherent asContent) (i : Ident)
    (t : Celltype) (useCache : Bool) :
    (s.runSerialize i t useCache).1.Coherent asContent ∧
      Matches asContent (s.runSerialize i t useCache).2 (L.serializeHeld (s.value i) t) := by
  unfold runSerialize
  split
  · cases hlookup : s.serializeCache.lookup (i, t) with
    | some entry =>
      refine ⟨hs.of_entries (fun e he => Lru.mem_touch he) (fun _ _ => rfl), ?_⟩
      exact hs.right _ ((s.serializeCache.mem_entries_iff _ _).mpr hlookup)
    | none =>
      cases hbytes : L.serializeHeld (s.value i) t with
      | none => exact ⟨hs, rfl⟩
      | some b =>
        have hr : Matches asContent (some (.bytes b)) (L.serializeHeld (s.value i) t) := by
          rw [hbytes]
          exact ⟨b, rfl, rfl⟩
        refine ⟨hs.set rfl rfl hr, ?_⟩
        exact ⟨b, rfl, rfl⟩
  · exact ⟨hs, matches_map _⟩

/-- Coherence is kept and the output is right. -/
def Fine (asContent : Bool) (out : Process L × Output L) : Prop :=
  out.1.Coherent asContent ∧ out.2.Correct asContent

theorem serializeSync_fine {s : Process L} (hs : s.Coherent asContent) (i : Ident)
    (t : Celltype) (useCache : Bool) : Fine asContent (s.serializeSync i t useCache) :=
  runSerialize_coherent hs i t useCache

theorem serialize_fine {s : Process L} (hs : s.Coherent asContent) (i : Ident)
    (t : Celltype) (useCache : Bool) : Fine asContent (s.serialize i t useCache) := by
  unfold serialize
  split
  · exact ⟨hs, trivial⟩
  · exact serializeSync_fine hs i t useCache

variable [DecidableEq (Held L)]

theorem serializeMade_fine {s : Process L} (hs : s.Coherent asContent) (made : Ident)
    (v : Held L) (t : Celltype) : Fine asContent (s.serializeMade made v t) := by
  unfold serializeMade
  split
  next hplace => exact serializeSync_fine (place_coherent hs hplace) made t true
  next => exact ⟨hs, trivial⟩

theorem newBuffer_fine {s : Process L} (hs : s.Coherent asContent) (i : Ident)
    (t : Celltype) (made : Ident) : Fine asContent (s.newBuffer i t made) := by
  unfold newBuffer
  split
  · exact serializeMade_fine hs made _ t
  · split
    · exact serializeSync_fine hs i t true
    · exact ⟨hs, trivial⟩
  · exact serializeSync_fine hs i t true

theorem newDeepBuffer_fine {s : Process L} (hs : s.Coherent asContent) (i made : Ident) :
    Fine asContent (s.newDeepBuffer i made) := by
  unfold newDeepBuffer
  split
  · exact serializeMade_fine hs made _ .plain
  · exact ⟨hs, trivial⟩
  · exact serializeMade_fine hs made _ .plain
  · exact serializeSync_fine hs i .plain true

/-! ## §7. Parsing. -/

theorem parseBuffer_correct (s : Process L) (isAsync : Bool) (stored : Option HashType)
    (b : Bytes) (c : Checksum) (t : Celltype) (copy : Bool) (i : Ident) :
    (s.parseBuffer isAsync stored b c t copy i).2.Correct asContent := by
  unfold parseBuffer
  simp only
  split
  · split
    · split <;> trivial
    · trivial
  · split
    · trivial
    · split
      · split <;> trivial
      · trivial

theorem parseBuffer_coherent {s : Process L} (hs : s.Coherent asContent) {isAsync : Bool}
    {stored : Option HashType} {b : Bytes} {c : Checksum} {t : Celltype} {copy : Bool}
    {i : Ident} (hspoils : ¬ s.Spoils asContent (.parseBuffer isAsync stored b c t copy i)) :
    (s.parseBuffer isAsync stored b c t copy i).1.Coherent asContent := by
  have hplaced : ∀ {v : Held L} {p : Process L}, s.CanPlace i v →
      p.value = (s.place i v).value → p.serializeCache = s.serializeCache →
      p.Coherent asContent := by
    intro v p hplace hvalue hcache
    refine (place_coherent hs hplace).of_entries ?_ ?_
    · intro e he
      rw [hcache] at he
      exact he
    · intro e _
      rw [hvalue]
  unfold parseBuffer
  simp only
  split
  next j hcached =>
    split
    · split
      next hplace => exact hplaced hplace rfl rfl
      next => exact hs
    · exact hs.of_entries (fun _ he => he) (fun _ _ => rfl)
  next hmiss =>
    split
    next => exact hs.of_entries (fun _ he => he) (fun _ _ => rfl)
    next v hparse =>
      split
      next hplace =>
        split
        next => exact hplaced hplace rfl rfl
        next hcopy =>
          -- the parsed buffer enters the cache, and is canonical
          have hcopy' : copy = false := by simpa using hcopy
          have hright : Matches asContent (some (.buffer b)) (L.serializeHeld v t) := by
            by_contra hwrong
            exact hspoils ⟨hcopy', hmiss, v, hparse, hplace, hwrong⟩
          refine (place_coherent hs hplace).set (i := i) (c := t) (r := .buffer b) rfl rfl ?_
          show Matches asContent _ (L.serializeHeld (Function.update s.value i v i) t)
          rw [Function.update_self]
          exact hright
      next => exact hs

/-! ## §8. Steps. -/

omit [DecidableEq (Held L)] in
theorem foldl_update_of_forall_ne {V : Type} (changes : List (Ident × V)) (value : Ident → V)
    (j : Ident) (h : ∀ c ∈ changes, c.1 ≠ j) :
    changes.foldl (fun value c => Function.update value c.1 c.2) value j = value j := by
  induction changes generalizing value with
  | nil => rfl
  | cons c changes ih =>
    rw [List.foldl_cons, ih _ fun d hd => h d (List.mem_cons_of_mem c hd)]
    exact Function.update_of_ne (h c List.mem_cons_self).symm _ _

omit [DecidableEq (Held L)] in
/-- Only what the caller owns has changed. -/
theorem changed_value {s : Process L} {changes : List (Ident × Held L)}
    (hmay : s.MayChange changes) {j : Ident} (hj : (s.changed changes).value j ≠ s.value j) :
    j ∈ s.owned := by
  by_contra hne
  apply hj
  apply foldl_update_of_forall_ne
  intro c hc heq
  rw [← heq] at hne
  exact hne (hmay c hc).1

theorem step_coherent {s : Process L} (hs : s.Coherent asContent) {call : Call L}
    (hspoils : ¬ s.Spoils asContent call) : (s.step call).1.Coherent asContent := by
  cases call with
  | create i v =>
    unfold step
    simp only
    split
    next hplace =>
      exact (place_coherent hs hplace).of_entries (fun _ he => he) (fun _ _ => rfl)
    next => exact hs
  | drop i => exact hs.of_entries (fun _ he => he) (fun _ _ => rfl)
  | mutate changes =>
    unfold step
    simp only
    split
    next hmay =>
      refine ⟨hs.keyed, fun e he => ?_⟩
      -- a change that spoils nothing leaves what the entries stand for
      have hsame : L.serializeHeld ((s.changed changes).value e.1.1) e.1.2 =
          L.serializeHeld (s.value e.1.1) e.1.2 := by
        by_contra hne
        exact hspoils ⟨hmay, e, he, hne⟩
      rw [hsame]
      exact hs.right e he
    next => exact hs
  | serializeSync i t useCache =>
    unfold step
    simp only
    split
    · exact (serializeSync_fine hs i t useCache).1
    · exact hs
  | serialize i t useCache =>
    unfold step
    simp only
    split
    · exact (serialize_fine hs i t useCache).1
    · exact hs
  | newBuffer i t made =>
    unfold step
    simp only
    split
    · exact (newBuffer_fine hs i t made).1
    · exact hs
  | newDeepBuffer i made =>
    unfold step
    simp only
    split
    · exact (newDeepBuffer_fine hs i made).1
    · exact hs
  | parseBuffer isAsync stored b c t copy i => exact parseBuffer_coherent hs hspoils

theorem step_correct {s : Process L} (hs : s.Coherent asContent) (call : Call L) :
    (s.step call).2.Correct asContent := by
  unfold step
  cases call with
  | serializeSync i t useCache =>
    simp only
    split
    · exact (serializeSync_fine hs i t useCache).2
    · trivial
  | serialize i t useCache =>
    simp only
    split
    · exact (serialize_fine hs i t useCache).2
    · trivial
  | newBuffer i t made =>
    simp only
    split
    · exact (newBuffer_fine hs i t made).2
    · trivial
  | newDeepBuffer i made =>
    simp only
    split
    · exact (newDeepBuffer_fine hs i made).2
    · trivial
  | parseBuffer isAsync stored b c t copy i =>
    exact parseBuffer_correct s isAsync stored b c t copy i
  | create i v =>
    simp only
    split <;> trivial
  | mutate changes =>
    simp only
    split <;> trivial
  | drop i => trivial

/-- A cached answer is the answer of the next call. -/
theorem serializeSync_hit {s : Process L} {i : Ident} {t : Celltype} {entry : Returned × Ident}
    (hholds : s.Holds i) (hlookup : s.serializeCache.lookup (i, t) = some entry) :
    (s.step (.serializeSync i t true)).2 = .serialized (s.value i) t (some entry.1) := by
  unfold step
  simp only
  rw [if_pos hholds]
  unfold serializeSync runSerialize
  rw [if_pos rfl, hlookup]

/-- After a step that spoils the cache there is a call with a wrong answer. -/
theorem spoils_incorrect {s : Process L} (hs : s.Coherent asContent) {call : Call L}
    (hspoils : s.Spoils asContent call) :
    ∃ call', ¬ ((s.step call).1.step call').2.Correct asContent := by
  cases call with
  | mutate changes =>
    obtain ⟨hmay, e, he, hne⟩ := hspoils
    have hstep : (s.step (.mutate changes)).1 = s.changed changes := by
      unfold step
      simp only
      rw [if_pos hmay]
    have howned : e.1.1 ∈ s.owned := by
      apply changed_value hmay
      intro heq
      rw [heq] at hne
      exact hne rfl
    have hlookup := (s.serializeCache.mem_entries_iff e.1 e.2).mp he
    refine ⟨.serializeSync e.1.1 e.1.2 true, ?_⟩
    rw [hstep, serializeSync_hit (s := s.changed changes) (.inl howned) hlookup]
    intro hcorrect
    exact hne (Matches.unique hcorrect (hs.right e he))
  | parseBuffer isAsync stored b c t copy i =>
    obtain ⟨hcopy, hmiss, v, hparse, hplace, hwrong⟩ := hspoils
    subst hcopy
    refine ⟨.serializeSync i t true, ?_⟩
    have hafter : ∃ p : Process L, (s.step (.parseBuffer isAsync stored b c t false i)).1 = p ∧
        p.Holds i ∧ p.value i = v ∧ p.serializeCache.lookup (i, t) = some (.buffer b, i) := by
      refine ⟨_, rfl, ?_⟩
      unfold step parseBuffer
      simp only [hmiss, hparse, if_pos hplace]
      refine ⟨.inr List.mem_cons_self, ?_, ?_⟩
      · exact Function.update_self i v s.value
      · exact Lru.lookup_set_self (by omega) _ _ _
    obtain ⟨p, hp, hholds, hvalue, hlookup⟩ := hafter
    rw [hp, serializeSync_hit hholds hlookup, hvalue]
    exact hwrong
  | _ => exact hspoils.elim

/-! ## §9. Runs. -/

theorem after_snoc (calls : List (Call L)) (call : Call L) :
    after (calls ++ [call]) = ((after calls).step call).1 := Run.exec_snoc step initial calls call

/-- Every call that could be made next is answered right. -/
def AllCorrect (asContent : Bool) (s : Process L) : Prop :=
  ∀ call, (s.step call).2.Correct asContent

/-- As long as all answers are right, the cache is coherent. -/
theorem coherent_of_correct (calls : List (Call L))
    (h : ∀ before, before <+: calls → (after before).AllCorrect asContent) :
    (after calls).Coherent asContent := by
  induction calls using List.reverseRecOn with
  | nil => exact initial_coherent
  | append_singleton calls call ih =>
    have hs : (after calls).Coherent asContent :=
      ih fun before hinit => h before (hinit.trans (List.prefix_append calls [call]))
    rw [after_snoc]
    apply step_coherent hs
    intro hspoils
    obtain ⟨call', hwrong⟩ := spoils_incorrect hs hspoils
    rw [← after_snoc] at hwrong
    exact hwrong (h _ List.prefix_rfl call')

/-- In every state of a run all calls return what `_serialize` would return for the
value as it is, exactly when no call of the run spoils the cache; with `asContent`
a `Buffer` counts as its content, without it as what it is. -/
theorem serializeCache_coherent (asContent : Bool) (calls : List (Call L)) :
    (∀ before, before <+: calls → (after before).AllCorrect asContent) ↔
      ∀ before call rest, calls = before ++ call :: rest →
        ¬ (after before).Spoils asContent call := by
  constructor
  · intro hcorrect before call rest hcalls hspoils
    have hinit : ∀ xs, before ++ [call] = xs ∨ before = xs → xs <+: calls := by
      rintro xs (rfl | rfl)
      · exact ⟨rest, by rw [hcalls]; simp⟩
      · exact ⟨call :: rest, hcalls.symm⟩
    have hs : (after before).Coherent asContent := by
      apply coherent_of_correct
      intro xs hxs
      exact hcorrect xs (hxs.trans (hinit before (.inr rfl)))
    obtain ⟨call', hwrong⟩ := spoils_incorrect hs hspoils
    rw [← after_snoc] at hwrong
    exact hwrong (hcorrect _ (hinit _ (.inl rfl)) call')
  · intro hok before hinit
    obtain ⟨rest, hcalls⟩ := hinit
    have hs : (after before).Coherent asContent := by
      have hmeet : Run.StepsMeet step (fun _ s call => ¬ s.Spoils asContent call) initial
          before := by
        intro before' call rest' hsplit
        refine hok before' call (rest' ++ rest) ?_
        rw [← hcalls, hsplit]
        simp
      exact Run.exec_traced_invariant step (fun _ s call => ¬ s.Spoils asContent call)
        (fun _ s => s.Coherent asContent) initial_coherent
        (fun _ _ _ hs hcall => step_coherent hs hcall) before hmeet
    exact step_correct hs

open Classical in
/-- An array that is serialized, changed in place, and serialized again: the second
answer is the first one. -/
theorem mutatedArray_stale : ¬ ∀ calls : List (Call Small.base),
    ∀ before, before <+: calls → (after before).AllCorrect true := by
  intro hcorrect
  have h := hcorrect [.create 0 (.value (.array [1])), .serializeSync 0 .bytes true,
    .mutate [(0, .value (.array [2]))]] _ List.prefix_rfl (.serializeSync 0 .bytes true)
  have hstale : ∃ b, Returned.content true (.bytes [1]) = some b ∧ some [2] = some b := h
  obtain ⟨b, hb, hb'⟩ := hstale
  rw [← hb] at hb'
  cases hb'

end Process

end SeamlessCore
