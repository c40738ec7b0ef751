/-
  SeamlessCore.HashType.Store — the stored word of one checksum.

  `set_hash_type` tightens what is known: it ignores a word that the stored
  one implies, replaces a looser one, and rejects a contradiction as well as
  a word whose fields are not well formed.

  Main results:
    * `setWord_eq` — a valid word is written as `Tighten.write` does it;
    * `exec_setWord` — a run is the run of its valid words;
    * `truthful_comparable` — words about one buffer do not contradict;
    * `writes_tighten` — tightening over every sequence of writes.

  Source: `seamless/checksum/hash_type.py`.
-/
import SeamlessCore.Lib.Tighten
import SeamlessCore.Checksum.Small

namespace SeamlessCore

namespace HashType

/-! ## §1. Words. -/

/-- What `set_hash_type` is given. -/
inductive Incoming where
  | hashType (h : HashType)
  | word (n : Int)
  deriving DecidableEq

/-- `hash_type.word if isinstance(hash_type, HashType) else int(hash_type)` -/
def Incoming.value : Incoming → Int
  | .hashType h => h.word
  | .word n => n

/-- `unpack` of an integer, which may be negative -/
def unpackInt (n : Int) : Option HashType := if 0 ≤ n then unpack n.toNat else none

/-- `is_valid_word` of an integer -/
def isValidInt (n : Int) : Bool :=
  match unpackInt n with
  | none => false
  | some h => h.wellFormed

/-- A word that `is_valid_word` accepts. -/
structure Word where
  value : Int
  valid : isValidInt value = true
  deriving DecidableEq

namespace Word

theorem unpacks (w : Word) : (unpackInt w.value).isSome = true := by
  have hvalid := w.valid
  unfold isValidInt at hvalid
  cases h : unpackInt w.value with
  | none => simp [h] at hvalid
  | some h => rfl

/-- `unpack(word)` -/
def decoded (w : Word) : HashType := (unpackInt w.value).get w.unpacks

/-- `_hash_type_implies` of two stored words -/
def implies (tighter looser : Word) : Bool := tighter.decoded.implies looser.decoded

theorem implies_self (w : Word) : w.implies w = true := HashType.implies_refl _

theorem implies_trans (a b c : Word) (hab : a.implies b = true) (hbc : b.implies c = true) :
    a.implies c = true := HashType.implies_trans hab hbc

end Word

/-! ## §2. Writes. -/

/-- `_set_hash_type(checksum, hash_type)`: the stored word afterwards, and
whether the write was accepted, not rejected by a `ValueError` -/
def setWord (stored : Option Word) (incoming : Incoming) : Option Word × Bool :=
  if hvalid : isValidInt incoming.value = true then
    let word : Word := ⟨incoming.value, hvalid⟩
    match stored with
    | none => (some word, true)
    | some storedWord =>
      if storedWord = word then (some storedWord, true)
      else if storedWord.implies word then (some storedWord, true)
      -- a contradiction
      else if !word.implies storedWord then (some storedWord, false)
      else (some word, true)
  else (stored, false)

/-- The word that is written, if it is valid. -/
def Incoming.toWord (incoming : Incoming) : Option Word :=
  if h : isValidInt incoming.value = true then some ⟨incoming.value, h⟩ else none

/-- A valid word is written by the general rule; no other is written. -/
theorem setWord_eq (stored : Option Word) (incoming : Incoming) :
    setWord stored incoming =
      match incoming.toWord with
      | some word => Tighten.write Word.implies stored word
      | none => (stored, false) := by
  unfold setWord Incoming.toWord
  by_cases hvalid : isValidInt incoming.value = true
  · rw [dif_pos hvalid, dif_pos hvalid]
    cases stored with
    | none => rfl
    | some storedWord =>
      unfold Tighten.write
      simp only
      by_cases hsame : storedWord = ⟨incoming.value, hvalid⟩
      · -- an equal word is one that is implied
        have himplies := Word.implies_self storedWord
        rw [if_pos hsame, ← hsame, if_pos himplies]
      · rw [if_neg hsame]
        by_cases h1 : storedWord.implies ⟨incoming.value, hvalid⟩ = true
        · rw [if_pos h1, if_pos h1]
        · rw [if_neg h1, if_neg h1]
          cases h2 : Word.implies ⟨incoming.value, hvalid⟩ storedWord <;> rfl
  · rw [dif_neg hvalid, dif_neg hvalid]

theorem setWord_rejected {stored : Option Word} {incoming : Incoming}
    (h : (setWord stored incoming).2 = false) : (setWord stored incoming).1 = stored := by
  rw [setWord_eq] at h ⊢
  cases hword : incoming.toWord with
  | none => rfl
  | some word =>
    simp only [hword] at h ⊢
    exact Tighten.write_rejected h

/-- A run of writes is the run of the valid words in it. -/
theorem exec_setWord (stored : Option Word) (writes : List Incoming) :
    Run.exec setWord stored writes =
      Run.exec (Tighten.write Word.implies) stored (writes.filterMap Incoming.toWord) := by
  induction writes generalizing stored with
  | nil => rfl
  | cons incoming writes ih =>
    show Run.exec setWord (setWord stored incoming).1 writes = _
    rw [ih, setWord_eq]
    cases hword : incoming.toWord with
    | none => simp [hword]
    | some word =>
      simp only [List.filterMap_cons, hword]
      rfl

/-- The verdicts on valid words are those of the general rule. -/
theorem trace_setWord (stored : Option Word) (writes : List Incoming)
    (hvalid : ∀ incoming ∈ writes, ∃ word, incoming.toWord = some word) :
    (Run.trace setWord stored writes).map Prod.snd =
      (Run.trace (Tighten.write Word.implies) stored
        (writes.filterMap Incoming.toWord)).map Prod.snd := by
  induction writes generalizing stored with
  | nil => rfl
  | cons incoming writes ih =>
    obtain ⟨word, hword⟩ := hvalid incoming (by simp)
    simp only [List.filterMap_cons, hword]
    show (setWord stored incoming).2 :: (Run.trace setWord (setWord stored incoming).1 writes).map
      Prod.snd = (Tighten.write Word.implies stored word).2 ::
        (Run.trace (Tighten.write Word.implies) (Tighten.write Word.implies stored word).1
          (writes.filterMap Incoming.toWord)).map Prod.snd
    rw [ih _ fun i hi => hvalid i (List.mem_cons_of_mem _ hi), setWord_eq, hword]

/-! ## §3. Words about one buffer. -/

/-- What a word implies is comparable. -/
theorem implies_comparable {truth a b : HashType} (ha : truth.implies a = true)
    (hb : truth.implies b = true) : a.implies b = true ∨ b.implies a = true := by
  by_cases hua : a.isUntested = true
  · by_cases hub : b.isUntested = true
    · -- the untested kinds are ordered: nothing, UTF-8, JSON
      have hlen : a.length = b.length := (implies_length ha).symm.trans (implies_length hb)
      obtain ⟨ha1, ha2, ha3⟩ := implies_untested (l := a) hlen.symm
      obtain ⟨hb1, hb2, hb3⟩ := implies_untested (l := b) hlen
      rcases isUntested_cases hua with ka | ka | ka
      · exact .inr (ha1 ka)
      · rcases isUntested_cases hub with kb | kb | kb
        · exact .inl (hb1 kb)
        · left
          rw [hb2 kb]
          simp [isUtf8, ka]
        · right
          rw [ha2 ka]
          simp [isUtf8, kb]
      · rcases isUntested_cases hub with kb | kb | kb
        · exact .inl (hb1 kb)
        · left
          rw [hb2 kb]
          simp [isUtf8, ka]
        · left
          rw [hb3 kb]
          simp [isJson, ka]
    · rw [← eq_of_implies hb (by simpa using hub)]
      exact .inr ha
  · rw [← eq_of_implies ha (by simpa using hua)]
    exact .inl hb

/-- The write of a valid word that is implied by the word of the buffer. -/
def TruthfulWrite (L : Libraries) (b : Python.Bytes) (incoming : Incoming) : Prop :=
  ∃ word, incoming.toWord = some word ∧ (L.fromBuffer b).implies word.decoded = true

theorem truthful_comparable (L : Libraries) (b : Python.Bytes) {writes : List Incoming}
    (h : ∀ incoming ∈ writes, TruthfulWrite L b incoming) :
    Tighten.Comparable Word.implies (writes.filterMap Incoming.toWord) := by
  have htruth : ∀ word ∈ writes.filterMap Incoming.toWord,
      (L.fromBuffer b).implies word.decoded = true := by
    intro word hword
    obtain ⟨incoming, hmem, hto⟩ := List.mem_filterMap.mp hword
    obtain ⟨word', hto', himplies⟩ := h incoming hmem
    rw [hto] at hto'
    rw [Option.some.inj hto']
    exact himplies
  intro x hx y hy
  exact implies_comparable (htruth x hx) (htruth y hy)

/-! ## §4. Every sequence of writes. -/

/-- Over every sequence of writes to one checksum: a stored word implies those
stored before it, a rejected write leaves the store unchanged, and valid words
that are truthful about one buffer are all accepted and leave the same facts
in every order. -/
theorem writes_tighten (L : Libraries) :
    (∀ before after : List Incoming,
      Tighten.Tighter Word.implies (Run.exec setWord none (before ++ after))
        (Run.exec setWord none before)) ∧
    (∀ stored incoming, (setWord stored incoming).2 = false →
      (setWord stored incoming).1 = stored) ∧
    ∀ (b : Python.Bytes) (writes : List Incoming),
      (∀ incoming ∈ writes, TruthfulWrite L b incoming) →
      (∀ entry ∈ Run.trace setWord none writes, entry.2 = true) ∧
      ∀ writes', writes'.Perm writes →
        Tighten.Tighter Word.implies (Run.exec setWord none writes)
            (Run.exec setWord none writes') ∧
          Tighten.Tighter Word.implies (Run.exec setWord none writes')
            (Run.exec setWord none writes) := by
  refine ⟨?_, fun stored incoming h => setWord_rejected h, ?_⟩
  · intro before after
    rw [Run.exec_append, exec_setWord, exec_setWord]
    exact Tighten.exec_tightens Word.implies_self Word.implies_trans _ _
  · intro b writes htruthful
    have hcomparable := truthful_comparable L b htruthful
    refine ⟨?_, ?_⟩
    · -- the verdicts are those on comparable words
      intro entry hentry
      have hvalid : ∀ incoming ∈ writes, ∃ word, incoming.toWord = some word := by
        intro incoming hmem
        obtain ⟨word, hword, -⟩ := htruthful incoming hmem
        exact ⟨word, hword⟩
      have haccepted := (Tighten.exec_comparable Word.implies_self Word.implies_trans hcomparable
        (writes.filterMap Incoming.toWord) fun x hx => hx).1
      have hverdict : entry.2 ∈ (Run.trace setWord none writes).map Prod.snd :=
        List.mem_map_of_mem hentry
      rw [trace_setWord none writes hvalid] at hverdict
      obtain ⟨entry', hentry', heq⟩ := List.mem_map.mp hverdict
      rw [← heq]
      exact haccepted entry' hentry'
    · intro writes' hperm
      rw [exec_setWord, exec_setWord]
      exact Tighten.exec_mutual Word.implies_self Word.implies_trans
        (hperm.filterMap Incoming.toWord) hcomparable

/-- An untested word with the flag `SEMANTIC`, for the empty buffer -/
def semanticUntested : HashType :=
  { kind := .untested, length := .short, flags := ⟨false, false, true⟩ }

/-- The word of the empty buffer implies it, since flags of untested words do
not count, but its write is rejected: it is not well formed. -/
theorem semanticUntested_rejected :
    (∀ incoming ∈ [Incoming.hashType semanticUntested],
      ∃ h, unpackInt incoming.value = some h ∧ (small.fromBuffer []).implies h = true) ∧
    ¬ ∀ entry ∈ Run.trace setWord none [Incoming.hashType semanticUntested], entry.2 = true := by
  refine ⟨?_, by decide⟩
  intro incoming hmem
  rw [List.mem_singleton.mp hmem]
  exact ⟨semanticUntested, by decide, by decide⟩

end HashType

end SeamlessCore
