/-
  SeamlessCore.Checksum.ChecksumCache — the caches around SHA-256.

  `calculate_checksum_cache` maps the identity of a bytes object to its
  checksum, `checksum_cache` a checksum to a bytes object.  Bytes do not
  change, but an identity is used again once its object is freed; both caches
  refer to their objects, so that this does not happen while an entry is there.
  Before a request returns, it registers the HashType of the content, and this
  can raise: `from_buffer` does not catch all that its readers raise, and a
  contradiction to the stored word is an error.

  Main results:
    * `step_coherent` — both caches stay right, over every reuse of identities;
    * `cachedChecksum_identity` — every request of a run returns the SHA-256 of
      its content exactly when the registration does not raise, and none
      returns anything else;
    * `identified_of_classified` — where only requests register, it does so
      unless `from_buffer` raises.

  Source: `seamless/checksum/cached_calculate_checksum.py`, `hash_type.py`.
-/
import SeamlessCore.Checksum.SerializeCache
import SeamlessCore.HashType.Agreement
import SeamlessCore.HashType.Store

namespace SeamlessCore

open Python

/-! ## §1. Words. -/

/-- The word that `from_buffer` gives -/
def Libraries.bufferWord (L : Libraries) (b : Bytes) : HashType.Word :=
  ⟨((L.fromBuffer b).word : Nat), L.fromBuffer_valid b⟩

/-! ## §2. The process. -/

/-- A process: its bytes objects, the references to them from outside of the two
caches, the caches, and the stored HashTypes. -/
structure Hasher where
  content : Ident → Bytes
  held : List Ident
  calculateChecksumCache : Lru 10 Ident (Checksum × Ident)
  checksumCache : Lru 10 Checksum Ident
  hashTypes : Checksum → Option HashType.Word

namespace Hasher

/-- What can happen. -/
inductive Event where
  /-- A bytes object is made or referred to, for example as the content of a `Buffer`. -/
  | create (i : Ident) (b : Bytes)
  /-- A reference to it is dropped. -/
  | drop (i : Ident)
  /-- `await cached_calculate_checksum(buffer)`, or `cached_calculate_checksum_sync(buffer)` -/
  | request (isAsync : Bool) (i : Ident)
  /-- `checksum_cache.get(checksum)` -/
  | lookup (c : Checksum)
  /-- Other code calls `set_hash_type(checksum, hash_type)`. -/
  | setHashType (c : Checksum) (incoming : HashType.Incoming)

/-- What it gives.  An event that cannot happen is refused. -/
inductive Output where
  | refused
  | done
  | found (i : Option Ident)
  /-- The content, and what was returned, if nothing was raised -/
  | answered (b : Bytes) (answer : Option Checksum)

def initial : Hasher := ⟨fun _ => [], [], .empty, .empty, fun _ => none⟩

/-- There is a reference to the object: from outside, or from a cache. -/
def Alive (s : Hasher) (i : Ident) : Prop :=
  i ∈ s.held ∨ i ∈ s.calculateChecksumCache.entries.map (fun e => e.2.2) ∨
    i ∈ s.checksumCache.entries.map Prod.snd

instance (s : Hasher) (i : Ident) : Decidable (s.Alive i) := by
  unfold Alive
  infer_instance

/-- A new object gets an identity that is not in use; or it is an equal one that
exists. -/
def CanPlace (s : Hasher) (i : Ident) (b : Bytes) : Prop := ¬ s.Alive i ∨ s.content i = b

instance (s : Hasher) (i : Ident) (b : Bytes) : Decidable (s.CanPlace i b) := by
  unfold CanPlace
  infer_instance

/-! ## §3. Requests. -/

variable {L : Libraries} (E : Escapes L)

/-- `register_hash_type_for_buffer(checksum, buffer)`, and whether it returned -/
def registerHashType (s : Hasher) (c : Checksum) (b : Bytes) : Hasher × Bool :=
  if E.raises b then (s, false)
  else
    let written := HashType.setWord (s.hashTypes c) (.hashType (L.fromBuffer b))
    ({ s with hashTypes := Function.update s.hashTypes c written.1 }, written.2)

/-- Registration, then `return checksum` -/
def returning (s : Hasher) (c : Checksum) (b : Bytes) : Hasher × Option Checksum :=
  ((s.registerHashType E c b).1, if (s.registerHashType E c b).2 then some c else none)

/-- The body of both functions, for the content of the buffer -/
def calculateCached (s : Hasher) (i : Ident) : Hasher × Option Checksum :=
  match s.calculateChecksumCache.lookup i with
  | some entry =>
    Hasher.returning E { s with
      calculateChecksumCache := s.calculateChecksumCache.touch i
      checksumCache := s.checksumCache.set entry.1 i } entry.1 (s.content i)
  | none =>
    let checksum := L.sha256 (s.content i)
    Hasher.returning E { s with
      calculateChecksumCache := s.calculateChecksumCache.set i (checksum, i)
      checksumCache := s.checksumCache.set checksum i } checksum (s.content i)

/-- `await cached_calculate_checksum(buffer)` -/
def cachedCalculateChecksum (s : Hasher) (i : Ident) : Hasher × Option Checksum :=
  s.calculateCached E i

/-- `cached_calculate_checksum_sync(buffer)` -/
def cachedCalculateChecksumSync (s : Hasher) (i : Ident) : Hasher × Option Checksum :=
  s.calculateCached E i

/-- A request of either form -/
def request (s : Hasher) (isAsync : Bool) (i : Ident) : Hasher × Option Checksum :=
  if isAsync then s.cachedCalculateChecksum E i else s.cachedCalculateChecksumSync E i

/-- One event -/
def step (s : Hasher) : Event → Hasher × Output
  | .create i b =>
    if s.CanPlace i b then
      ({ s with content := Function.update s.content i b, held := i :: s.held }, .done)
    else (s, .refused)
  | .drop i => ({ s with held := s.held.erase i }, .done)
  | .request isAsync i =>
    if i ∈ s.held then
      ((s.request E isAsync i).1, .answered (s.content i) (s.request E isAsync i).2)
    else (s, .refused)
  | .lookup c =>
    ({ s with
        checksumCache := s.checksumCache.touch c
        held := (s.checksumCache.lookup c).toList ++ s.held }, .found (s.checksumCache.lookup c))
  | .setHashType c incoming =>
    let written := HashType.setWord (s.hashTypes c) incoming
    ({ s with hashTypes := Function.update s.hashTypes c written.1 }, .done)

/-- The process after the events -/
def after (events : List Event) : Hasher := Run.exec (step E) initial events

/-- The registration of this content does not raise: `from_buffer` does not, and
the word does not contradict the stored one. -/
def Registrable (s : Hasher) (b : Bytes) : Prop :=
  E.raises b = false ∧ ∀ stored, s.hashTypes (L.sha256 b) = some stored →
    stored.implies (L.bufferWord b) = true ∨ (L.bufferWord b).implies stored = true

/-- The content of a request can be registered. -/
def Registers (s : Hasher) : Event → Prop
  | .request _ i => i ∈ s.held → s.Registrable E (s.content i)
  | _ => True

/-- A request returns the SHA-256 of its content. -/
def Output.Identifies (L : Libraries) : Output → Prop
  | .answered b answer => answer = some (L.sha256 b)
  | _ => True

/-- A request returns no other checksum. -/
def Output.Honest (L : Libraries) : Output → Prop
  | .answered b answer => ∀ c, answer = some c → c = L.sha256 b
  | _ => True

/-! ## §4. Registration. -/

/-- The word of a buffer is a valid one. -/
theorem toWord_fromBuffer (L : Libraries) (b : Bytes) :
    (HashType.Incoming.hashType (L.fromBuffer b)).toWord = some (L.bufferWord b) := by
  unfold HashType.Incoming.toWord
  exact dif_pos (L.fromBuffer_valid b)

/-- Registration does not touch the objects and the caches. -/
theorem registerHashType_frame (s : Hasher) (c : Checksum) (b : Bytes) :
    ∃ hashTypes, (s.registerHashType E c b).1 = { s with hashTypes := hashTypes } := by
  unfold registerHashType
  split
  · exact ⟨s.hashTypes, rfl⟩
  · exact ⟨_, rfl⟩

/-- Registration returns exactly for what can be registered. -/
theorem registerHashType_returns (s : Hasher) (b : Bytes) :
    (s.registerHashType E (L.sha256 b) b).2 = true ↔ s.Registrable E b := by
  unfold registerHashType Registrable
  by_cases hraises : E.raises b = true
  · rw [if_pos hraises]
    simp [hraises]
  · have hcaught : E.raises b = false := by simpa using hraises
    rw [if_neg hraises]
    show (HashType.setWord _ _).2 = true ↔ _
    rw [HashType.setWord_eq, toWord_fromBuffer]
    show (Tighten.write _ _ _).2 = true ↔ _
    rw [Tighten.write_accepted_iff]
    simp [hcaught]

/-- Whether it returns is up to the stored words alone. -/
theorem returning_answer {p s : Hasher} (hsame : p.hashTypes = s.hashTypes) (c : Checksum)
    (b : Bytes) :
    (p.returning E c b).2 = if (s.registerHashType E c b).2 = true then some c else none := by
  unfold returning registerHashType
  rw [hsame]
  by_cases hraises : E.raises b = true
  · rw [if_pos hraises, if_pos hraises]
  · rw [if_neg hraises, if_neg hraises]

/-! ## §5. The invariant. -/

/-- An entry of `calculate_checksum_cache` holds the object that it is about and
its checksum, one of `checksum_cache` an object with that checksum. -/
structure Coherent (L : Libraries) (s : Hasher) : Prop where
  keyed : ∀ e ∈ s.calculateChecksumCache.entries, e.2.2 = e.1
  hashed : ∀ e ∈ s.calculateChecksumCache.entries, e.2.1 = L.sha256 (s.content e.1)
  right : ∀ e ∈ s.checksumCache.entries, L.sha256 (s.content e.2) = e.1

theorem initial_coherent : initial.Coherent L := by
  refine ⟨?_, ?_, ?_⟩ <;> exact fun e he => absurd he List.not_mem_nil

/-- Entries that go do no harm, nor does new content of objects in no cache. -/
theorem Coherent.of_entries {s p : Hasher} (hs : s.Coherent L)
    (hcalculate : ∀ e ∈ p.calculateChecksumCache.entries,
      e ∈ s.calculateChecksumCache.entries ∧ p.content e.1 = s.content e.1)
    (hchecksum : ∀ e ∈ p.checksumCache.entries,
      e ∈ s.checksumCache.entries ∧ p.content e.2 = s.content e.2) : p.Coherent L := by
  refine ⟨?_, ?_, ?_⟩
  · intro e he
    exact hs.keyed e (hcalculate e he).1
  · intro e he
    obtain ⟨hmem, hcontent⟩ := hcalculate e he
    rw [hcontent]
    exact hs.hashed e hmem
  · intro e he
    obtain ⟨hmem, hcontent⟩ := hchecksum e he
    rw [hcontent]
    exact hs.right e hmem

/-- An object that a cache refers to keeps its content when another is made. -/
theorem create_content {s : Hasher} {i : Ident} {b : Bytes} (hplace : s.CanPlace i b)
    {j : Ident} (hj : s.Alive j) : Function.update s.content i b j = s.content j := by
  by_cases hji : j = i
  · rw [hji, Function.update_self]
    rcases hplace with hfresh | hequal
    · -- the identity of an object in use is not given to another
      rw [hji] at hj
      exact absurd hj hfresh
    · exact hequal.symm
  · exact Function.update_of_ne hji _ _

theorem create_coherent {s : Hasher} (hs : s.Coherent L) {i : Ident} {b : Bytes}
    (hplace : s.CanPlace i b) :
    Coherent L { s with content := Function.update s.content i b, held := i :: s.held } := by
  apply hs.of_entries
  · intro e he
    have halive : s.Alive e.1 := by
      -- the entry refers to its own object
      refine .inr (.inl (List.mem_map.mpr ⟨e, he, ?_⟩))
      exact hs.keyed e he
    exact ⟨he, create_content hplace halive⟩
  · intro e he
    have halive : s.Alive e.2 := .inr (.inr (List.mem_map.mpr ⟨e, he, rfl⟩))
    exact ⟨he, create_content hplace halive⟩

/-- A right checksum may be put into `checksum_cache`. -/
theorem Coherent.setChecksum {s : Hasher} (hs : s.Coherent L) {c : Checksum} {i : Ident}
    (hc : c = L.sha256 (s.content i)) :
    Coherent L { s with checksumCache := s.checksumCache.set c i } := by
  refine ⟨hs.keyed, hs.hashed, ?_⟩
  intro e he
  rcases Lru.mem_set he with heq | ⟨-, hold⟩
  · rw [heq]
    exact hc.symm
  · exact hs.right e hold

/-- So may an object with its checksum into `calculate_checksum_cache`. -/
theorem Coherent.setCalculated {s : Hasher} (hs : s.Coherent L) (i : Ident) :
    Coherent L { s with calculateChecksumCache :=
      s.calculateChecksumCache.set i (L.sha256 (s.content i), i) } := by
  refine ⟨?_, ?_, hs.right⟩
  · intro e he
    rcases Lru.mem_set he with heq | ⟨-, hold⟩
    · rw [heq]
    · exact hs.keyed e hold
  · intro e he
    rcases Lru.mem_set he with heq | ⟨-, hold⟩
    · rw [heq]
    · exact hs.hashed e hold

theorem Coherent.touchCalculated {s : Hasher} (hs : s.Coherent L) (i : Ident) :
    Coherent L { s with calculateChecksumCache := s.calculateChecksumCache.touch i } := by
  apply hs.of_entries
  · intro e he
    exact ⟨Lru.mem_touch he, rfl⟩
  · intro e he
    exact ⟨he, rfl⟩

theorem Coherent.withHashTypes {s : Hasher} (hs : s.Coherent L)
    (hashTypes : Checksum → Option HashType.Word) :
    Coherent L { s with hashTypes := hashTypes } := ⟨hs.keyed, hs.hashed, hs.right⟩

theorem returning_coherent {s : Hasher} (hs : s.Coherent L) (c : Checksum) (b : Bytes) :
    (s.returning E c b).1.Coherent L := by
  obtain ⟨hashTypes, hframe⟩ := s.registerHashType_frame E c b
  show (s.registerHashType E c b).1.Coherent L
  rw [hframe]
  exact hs.withHashTypes hashTypes

/-! ## §6. Requests keep it, and answer right. -/

/-- The checksum that is found for an identity is that of its object. -/
theorem Coherent.lookup {s : Hasher} (hs : s.Coherent L) {i : Ident} {entry : Checksum × Ident}
    (hlookup : s.calculateChecksumCache.lookup i = some entry) :
    entry.1 = L.sha256 (s.content i) := by
  have hmem := (s.calculateChecksumCache.mem_entries_iff i entry).mpr hlookup
  exact hs.hashed _ hmem

theorem calculateCached_coherent {s : Hasher} (hs : s.Coherent L) (i : Ident) :
    (s.calculateCached E i).1.Coherent L := by
  unfold calculateCached
  split
  next entry hlookup =>
    apply returning_coherent
    exact (hs.touchCalculated i).setChecksum (hs.lookup hlookup)
  next =>
    apply returning_coherent
    exact (hs.setCalculated i).setChecksum rfl

/-- Found or calculated, the checksum is returned if the content can be registered. -/
theorem calculateCached_answer {s : Hasher} (hs : s.Coherent L) (i : Ident) :
    (s.calculateCached E i).2 =
      if (s.registerHashType E (L.sha256 (s.content i)) (s.content i)).2 = true then
        some (L.sha256 (s.content i)) else none := by
  unfold calculateCached
  split
  next entry hlookup =>
    rw [← hs.lookup hlookup]
    apply returning_answer
    rfl
  next =>
    apply returning_answer
    rfl

theorem calculateCached_identifies {s : Hasher} (hs : s.Coherent L) (i : Ident) :
    (s.calculateCached E i).2 = some (L.sha256 (s.content i)) ↔
      s.Registrable E (s.content i) := by
  rw [calculateCached_answer E hs, ← registerHashType_returns]
  split
  next h => simp [h]
  next h => simp [h]

theorem calculateCached_honest {s : Hasher} (hs : s.Coherent L) (i : Ident) {c : Checksum}
    (h : (s.calculateCached E i).2 = some c) : c = L.sha256 (s.content i) := by
  rw [calculateCached_answer E hs] at h
  split at h
  · exact (Option.some.inj h).symm
  · cases h

/-- Both forms are the same. -/
theorem request_eq (s : Hasher) (isAsync : Bool) (i : Ident) :
    s.request E isAsync i = s.calculateCached E i := by
  cases isAsync <;> rfl

/-! ## §7. Steps. -/

theorem step_coherent {s : Hasher} (hs : s.Coherent L) (event : Event) :
    (s.step E event).1.Coherent L := by
  unfold step
  cases event with
  | create i b =>
    dsimp only
    split
    next hplace => exact create_coherent hs hplace
    next => exact hs
  | drop i => exact ⟨hs.keyed, hs.hashed, hs.right⟩
  | request isAsync i =>
    dsimp only
    split
    · show (s.request E isAsync i).1.Coherent L
      rw [request_eq]
      exact calculateCached_coherent E hs i
    · exact hs
  | lookup c =>
    refine hs.of_entries ?_ ?_
    · intro e he
      exact ⟨he, rfl⟩
    · intro e he
      exact ⟨Lru.mem_touch he, rfl⟩
  | setHashType c incoming => exact hs.withHashTypes _

theorem step_identifies {s : Hasher} (hs : s.Coherent L) (event : Event) :
    (s.step E event).2.Identifies L ↔ s.Registers E event := by
  unfold step Registers
  cases event with
  | create i b =>
    dsimp only
    split <;> simp [Output.Identifies]
  | drop i => exact Iff.rfl
  | request isAsync i =>
    dsimp only
    split
    next hheld =>
      show (s.request E isAsync i).2 = some (L.sha256 (s.content i)) ↔ _
      rw [request_eq, calculateCached_identifies E hs]
      simp [hheld]
    next hheld => simp [Output.Identifies, hheld]
  | lookup c => exact Iff.rfl
  | setHashType c incoming => exact Iff.rfl

theorem step_honest {s : Hasher} (hs : s.Coherent L) (event : Event) :
    (s.step E event).2.Honest L := by
  unfold step
  cases event with
  | create i b =>
    dsimp only
    split <;> trivial
  | drop i => trivial
  | request isAsync i =>
    dsimp only
    split
    · intro c hc
      rw [request_eq] at hc
      exact calculateCached_honest E hs i hc
    · trivial
  | lookup c => trivial
  | setHashType c incoming => trivial

/-! ## §8. Runs. -/

theorem after_coherent (events : List Event) : (after E events).Coherent L :=
  Run.exec_invariant (step E) (Coherent L) (fun _ event hs => step_coherent E hs event)
    initial_coherent events

/-- Over every run of requests, of objects that are made, freed, and made again with
the same identity, of evictions, and of other writers of HashTypes: every request
returns the SHA-256 of its content exactly when every content that is requested
can be registered; no request ever returns anything else; and
`checksum_cache` maps every checksum to bytes that hash to it. -/
theorem cachedChecksum_identity (events : List Event) :
    ((∀ call ∈ Run.trace (step E) initial events, call.2.Identifies L) ↔
      Run.StepsMeet (step E) (fun _ s event => s.Registers E event) initial events) ∧
    (∀ call ∈ Run.trace (step E) initial events, call.2.Honest L) ∧
    ∀ before, before <+: events → ∀ e ∈ (after E before).checksumCache.entries,
      L.sha256 ((after E before).content e.2) = e.1 := by
  refine ⟨?_, ?_, ?_⟩
  · exact Run.forall_trace_iff (step E) (Coherent L) (Registers E) (Output.Identifies L)
      (fun _ event hs => step_coherent E hs event) (fun _ event hs => step_identifies E hs event)
      initial_coherent events
  · intro call hcall
    obtain ⟨before, event, -, -, heq⟩ := Run.mem_trace (step E) hcall
    rw [heq]
    exact step_honest E (after_coherent E before) event
  · intro before _ e he
    exact (after_coherent E before).right e he

/-! ## §9. Runs in which only requests register. -/

/-- The content of a request -/
def Output.requested : Output → Option Bytes
  | .answered b _ => some b
  | _ => none

/-- The contents of the requests of a run -/
def requests (events : List Event) : List Bytes :=
  (Run.trace (step E) initial events).filterMap fun call => call.2.requested

/-- No other code writes HashTypes. -/
def Undisturbed (events : List Event) : Prop :=
  ∀ c incoming, Event.setHashType c incoming ∉ events

/-- Registration writes the word of the buffer, if any. -/
theorem registerHashType_stored (s : Hasher) (c : Checksum) (b : Bytes) (c' : Checksum) :
    (s.registerHashType E c b).1.hashTypes c' = s.hashTypes c' ∨
      c' = c ∧ (s.registerHashType E c b).1.hashTypes c' = some (L.bufferWord b) := by
  unfold registerHashType
  split
  · exact .inl rfl
  · show Function.update _ _ _ _ = _ ∨ _ ∧ Function.update _ _ _ _ = _
    by_cases hc : c' = c
    · rw [hc, Function.update_self, HashType.setWord_eq, toWord_fromBuffer]
      have hcases := @Tighten.write_cases _ HashType.Word.implies (s.hashTypes c) (L.bufferWord b)
      rcases hcases with hkept | hnew
      · exact .inl hkept
      · exact .inr ⟨rfl, hnew⟩
    · rw [Function.update_of_ne hc]
      exact .inl rfl

theorem calculateCached_stored {s : Hasher} (hs : s.Coherent L) (i : Ident) (c : Checksum) :
    (s.calculateCached E i).1.hashTypes c = s.hashTypes c ∨
      c = L.sha256 (s.content i) ∧
        (s.calculateCached E i).1.hashTypes c = some (L.bufferWord (s.content i)) := by
  unfold calculateCached
  split
  next entry hlookup =>
    rw [← hs.lookup hlookup]
    exact registerHashType_stored E _ entry.1 (s.content i) c
  next => exact registerHashType_stored E _ (L.sha256 (s.content i)) (s.content i) c

/-- An event that is no write of other code leaves a stored word, or stores that of
the content that it requests. -/
theorem step_stored {s : Hasher} (hs : s.Coherent L) {event : Event}
    (hevent : ∀ c incoming, event ≠ .setHashType c incoming) (c : Checksum) :
    (s.step E event).1.hashTypes c = s.hashTypes c ∨
      ∃ b, (s.step E event).2.requested = some b ∧ c = L.sha256 b ∧
        (s.step E event).1.hashTypes c = some (L.bufferWord b) := by
  unfold step
  cases event with
  | create i b =>
    dsimp only
    split <;> exact .inl rfl
  | drop i => exact .inl rfl
  | request isAsync i =>
    dsimp only
    split
    · rw [request_eq]
      rcases calculateCached_stored E hs i c with hkept | ⟨hc, hnew⟩
      · exact .inl hkept
      · exact .inr ⟨s.content i, rfl, hc, hnew⟩
    · exact .inl rfl
  | lookup c' => exact .inl rfl
  | setHashType c' incoming => exact absurd rfl (hevent c' incoming)

/-- Every stored word is that of a content which was requested. -/
theorem after_stored {events : List Event} (hown : Undisturbed events) {c : Checksum}
    {word : HashType.Word} (hword : (after E events).hashTypes c = some word) :
    ∃ b ∈ requests E events, c = L.sha256 b ∧ word = L.bufferWord b := by
  induction events using List.reverseRecOn with
  | nil => cases hword
  | append_singleton events event ih =>
    have hbefore : Undisturbed events := fun c incoming hmem =>
      hown c incoming (List.mem_append_left [event] hmem)
    have hevent : ∀ c incoming, event ≠ .setHashType c incoming := by
      intro c incoming heq
      apply hown c incoming
      rw [heq]
      exact List.mem_append_right events List.mem_cons_self
    have hrequests : requests E (events ++ [event]) = requests E events ++
        ([(event, ((after E events).step E event).2)] : List (Event × Output)).filterMap
          fun call => call.2.requested := by
      unfold requests
      rw [Run.trace_snoc, List.filterMap_append]
      rfl
    have hafter : after E (events ++ [event]) = ((after E events).step E event).1 :=
      Run.exec_snoc (step E) initial events event
    rw [hafter] at hword
    rw [hrequests]
    rcases step_stored E (after_coherent E events) hevent c with hkept | ⟨b, hb, hc, hnew⟩
    · rw [hkept] at hword
      obtain ⟨b, hb, hfound⟩ := ih hbefore hword
      exact ⟨b, List.mem_append_left _ hb, hfound⟩
    · rw [hnew] at hword
      refine ⟨b, List.mem_append_right _ ?_, hc, (Option.some.inj hword).symm⟩
      rw [List.mem_filterMap]
      exact ⟨_, List.mem_cons_self, hb⟩

/-- Where only requests register, and different contents have different checksums,
every request returns the SHA-256 of its content unless `from_buffer` raises. -/
theorem identified_of_classified {events : List Event} (hown : Undisturbed events)
    (hcollision : ∀ b ∈ requests E events, ∀ b' ∈ requests E events,
      L.sha256 b = L.sha256 b' → b = b')
    (hclassified : ∀ b ∈ requests E events, E.raises b = false) :
    ∀ call ∈ Run.trace (step E) initial events, call.2.Identifies L := by
  intro call hcall
  obtain ⟨before, event, rest, hevents, heq⟩ := Run.mem_trace (step E) hcall
  have hs : (after E before).Coherent L := after_coherent E before
  rw [heq]
  show ((after E before).step E event).2.Identifies L
  rw [step_identifies E hs]
  cases event with
  | request isAsync i =>
    intro hheld
    have hrequested : (after E before).content i ∈ requests E events := by
      refine List.mem_filterMap.mpr ⟨call, hcall, ?_⟩
      rw [heq]
      show Output.requested (step E (after E before) _).2 = _
      unfold step
      dsimp only
      rw [if_pos hheld]
      rfl
    refine ⟨hclassified _ hrequested, ?_⟩
    intro stored hstored
    have hinit : Undisturbed before := by
      intro c incoming hmem
      apply hown c incoming
      rw [hevents]
      exact List.mem_append_left _ hmem
    obtain ⟨b, hb, hc, hword⟩ := after_stored E hinit hstored
    have hsame : b = (after E before).content i := by
      apply hcollision b _ _ hrequested hc.symm
      -- what was requested before is requested in the run
      unfold requests
      rw [hevents, Run.trace_append, List.filterMap_append]
      exact List.mem_append_left _ hb
    left
    rw [hword, hsame]
    exact HashType.Word.implies_self _
  | _ => trivial

end Hasher

/-! ## §10. A buffer that gets no checksum. -/

open Hasher in
theorem unhashableHeader_raises :
    ¬ ∀ call ∈ Run.trace (step unhashableEscapes) initial
        [.create 0 unhashableHeader, .request true 0],
      call.2.Identifies unhashableLibraries := by
  intro h
  have hanswer := h _ (List.mem_cons_of_mem _ List.mem_cons_self)
  have hs := after_coherent unhashableEscapes [.create 0 unhashableHeader]
  obtain ⟨hraises, -⟩ := (step_identifies unhashableEscapes hs _).mp hanswer List.mem_cons_self
  exact absurd hraises (by decide)

end SeamlessCore
