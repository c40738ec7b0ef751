/-
  SeamlessCore.Conversion.Keeps — what conversions end with.

  A conversion ends with the checksum of its source, or with a new buffer and
  its checksum.  Only checksum values are dereferenced to another one.

  Main results:
    * `convertReformat_ends`, `convertPossible_ends`, … — one lemma a rule;
    * `convertFuel_ends`, `convertFuel_keeps` — the engine.
-/
import SeamlessCore.Conversion.Engine

namespace SeamlessCore

open Python Lazy

namespace Libraries

variable (L : Libraries)

/-! ## §1. Results. -/

/-- The checksum of the source, or a new buffer with its checksum -/
def Ends (c : Checksum) (r : Converted) : Prop := r = (c, none) ∨ ∃ b, r = (L.sha256 b, some b)

/-- A result without a buffer is the checksum of the source. -/
def Keeps (c : Checksum) (r : Converted) : Prop := r.2 = none → r.1 = c

theorem keeps_self (c : Checksum) : Keeps c (c, none) := fun _ => rfl

variable {L} in
theorem Ends.keeps {c : Checksum} {r : Converted} (h : L.Ends c r) : Keeps c r := by
  rcases h with rfl | ⟨b, rfl⟩
  · exact keeps_self c
  · intro hnone
    cases hnone

theorem ends_self (c : Checksum) : L.Ends c (c, none) := .inl rfl

theorem bufferResult_ends (c : Checksum) (b : Bytes) : (L.bufferResult b).Returns (L.Ends c) :=
  Prog.returns_seq fun _ => .inr ⟨b, rfl⟩

theorem valueResult_ends (c : Checksum) (v : L.Value) (t : Celltype) :
    (L.valueResult v t).Returns (L.Ends c) :=
  Prog.returns_seq fun b => bufferResult_ends L c b

/-! ## §2. Rules. -/

/-- A reinterpretation reads the buffer to check it, and makes no new one. -/
theorem reinterpret_kept (c : Checksum) (t : Celltype) :
    (L.reinterpret c t).Returns fun r => r = (c, none) := by
  unfold reinterpret
  cases L.virtualValue c t with
  | value v => exact rfl
  | invalid => trivial
  | notVirtual =>
    apply Prog.returns_seq
    intro known
    split
    · exact rfl
    · apply Prog.returns_seq
      intro b
      apply Prog.returns_seq
      intro v
      exact rfl

theorem reinterpret_ends (c : Checksum) (t : Celltype) : (L.reinterpret c t).Returns (L.Ends c) :=
  Prog.returns_imp (fun _ h => .inl h) (L.reinterpret_kept c t)

/-- Bytes that can be read as an array are kept, others are wrapped in one. -/
theorem bytesToBinary_ends (c : Checksum) : (L.bytesToBinary c).Returns (L.Ends c) := by
  apply Prog.returns_seq
  intro b
  split
  · apply Prog.returns_seq
    intro v
    cases v with
    | some v => exact ends_self L c
    | none => exact valueResult_ends L c _ _
  · exact valueResult_ends L c _ _

/-- What the inspection of the bytes ends with, whether they were read or not -/
theorem wrapped_ends (c : Checksum) (b : Bytes) (read : Option L.Value) :
    Prog.Returns (L.Ends c) (match read with
      | some _ => pure (c, none)
      | none =>
        match decodeUtf8 b with
        | some text => L.valueResult (.str (rstripNewlines text)) .str
        | none => L.valueResult (.array (L.npBytes b)) .binary) := by
  cases read with
  | some v => exact ends_self L c
  | none =>
    cases decodeUtf8 b with
    | some text => exact valueResult_ends L c _ _
    | none => exact valueResult_ends L c _ _

/-- Bytes are kept where they can be read as a mixed value, or their HashType says so. -/
theorem bytesToMixed_ends (c : Checksum) : (L.bytesToMixed c).Returns (L.Ends c) := by
  unfold bytesToMixed
  cases L.virtualValue c .mixed with
  | value v => exact ends_self L c
  | invalid => trivial
  | notVirtual =>
    apply Prog.returns_seq
    intro known
    split
    · exact ends_self L c
    · apply Prog.returns_seq
      intro b
      dsimp only
      split
      · exact wrapped_ends L c b none
      · exact Prog.returns_seq fun read => wrapped_ends L c b read

/-- Only an array of byte strings is unwrapped. -/
theorem binaryToBytes_ends (c : Checksum) : (L.binaryToBytes c).Returns (L.Ends c) := by
  apply Prog.returns_seq
  intro v
  cases v with
  | array a =>
    show Prog.Returns _ (if _ then _ else _)
    split
    · exact valueResult_ends L c _ _
    · exact ends_self L c
  | _ => exact ends_self L c

theorem mixedToBytes_ends (c : Checksum) : (L.mixedToBytes c).Returns (L.Ends c) := by
  apply Prog.returns_seq
  intro b
  split
  · exact binaryToBytes_ends L c
  · apply Prog.returns_seq
    intro v
    exact ends_self L c

/-- Text that is JSON already is kept: the written buffer is then the read one. -/
theorem textToPlain_ends (c : Checksum) : (L.textToPlain c).Returns (L.Ends c) := by
  apply Prog.returns_seq
  intro value
  apply Prog.returns_bind (valueResult_ends L c value .plain)
  intro result hresult
  split
  · exact ends_self L c
  · exact hresult

/-- The reformatting conversions, one case per pair of celltypes -/
theorem convertReformat_ends (c : Checksum) (s t : Celltype) :
    (L.convertReformat c s t).Returns (L.Ends c) := by
  unfold convertReformat
  split
  · exact bytesToBinary_ends L c
  · exact bytesToMixed_ends L c
  · exact binaryToBytes_ends L c
  · exact mixedToBytes_ends L c
  · apply Prog.returns_seq
    intro v
    cases v with
    | str text => exact valueResult_ends L c _ _
    | _ => exact ends_self L c
  · exact textToPlain_ends L c
  · exact Prog.returns_seq fun v => valueResult_ends L c _ _
  · exact Prog.returns_seq fun v => valueResult_ends L c _ _
  · apply Prog.returns_seq
    intro v
    cases v with
    | str text => exact Prog.returns_seq fun v => valueResult_ends L c _ _
    | _ => trivial
  · apply Prog.returns_seq
    intro v
    cases v with
    | str text => exact Prog.returns_seq fun v => valueResult_ends L c _ _
    | _ => trivial
  · trivial

/-- A conversion that may fail writes the value that it read. -/
theorem convertPossible_ends (c : Checksum) (s t : Celltype) :
    (L.convertPossible c s t).Returns (L.Ends c) := by
  apply Prog.returns_seq
  intro v
  split
  · trivial
  · exact Prog.returns_seq fun v => valueResult_ends L c _ _

/-- A conversion of values writes a new buffer; of a checksum it would be the buffer of
another one. -/
theorem convertValues_ends (c : Checksum) {s : Celltype} (t : Celltype) (hs : s ≠ .checksum) :
    (L.convertValues c s t).Returns (L.Ends c) := by
  unfold convertValues
  rw [if_neg hs]
  split
  · exact Prog.returns_seq fun b => bufferResult_ends L c b
  · apply Prog.returns_seq
    intro v
    exact Prog.returns_seq fun v => valueResult_ends L c _ _

/-! ## §3. The engine. -/

/-- A chain ends in the source, in a new buffer or in that of its first part. -/
theorem chainResult_ends {c c' : Checksum} {first second : Converted} (hfirst : L.Ends c' first)
    (hsecond : L.Ends first.1 second) : (chainResult c first second).Returns (L.Ends c) := by
  unfold chainResult
  rcases hsecond with rfl | ⟨b, rfl⟩
  · dsimp only
    split
    · exact ends_self L c
    -- the second part kept the first one's checksum: its buffer is that of the chain
    · rcases hfirst with rfl | ⟨b, rfl⟩
      · split
        next => trivial
        next h => exact absurd (.inl rfl) h
      · split
        next => trivial
        next => exact .inr ⟨b, rfl⟩
  · exact .inr ⟨b, rfl⟩

/-- No pair of the equivalence table starts from a checksum value. -/
theorem equivalent_source (s t : Celltype) :
    (Conversion.lookupPair Conversion.equivalentPairs (s, t)).all
      (fun conv => decide (conv.1 ≠ .checksum)) = true :=
  Conversion.all_lookupPair
    (f := fun _ (conv : Conversion.Pair) => decide (conv.1 ≠ .checksum))
    (by simp [Conversion.equivalentPairs]) (s, t)

/-- No chain goes through a checksum value. -/
theorem chain_intermediate (s t : Celltype) :
    (Conversion.lookupPair Conversion.chainPairs (s, t)).all (fun m => decide (m ≠ .checksum)) =
      true :=
  Conversion.all_lookupPair (f := fun _ (m : Celltype) => decide (m ≠ .checksum))
    (by simp [Conversion.chainPairs]) (s, t)

/-- Whatever the engine does, along equivalences and chains -/
theorem convertFuel_ends (fuel : Nat) : ∀ (c : Checksum) {s : Celltype} (t : Celltype),
    s ≠ .checksum → (L.convertFuel fuel c s t).Returns (L.Ends c) := by
  induction fuel with
  | zero => exact fun _ _ _ _ => trivial
  | succ fuel ih =>
    intro c s t hs
    show (L.convertStep _ c s t).Returns _
    unfold convertStep
    -- the rule says which table has the pair, and so that no checksum value is the source
    have hlists := Conversion.rule_lists s t
    cases hrule : Conversion.rule s t with
    | same => exact ends_self L c
    | equivalent s' t' =>
      rw [hrule] at hlists
      have hsource := equivalent_source s t
      rw [show Conversion.lookupPair _ (s, t) = some (s', t') from hlists] at hsource
      exact ih c t' (of_decide_eq_true hsource)
    | chain m =>
      rw [hrule] at hlists
      have hm := chain_intermediate s t
      rw [show Conversion.lookupPair _ (s, t) = some m from hlists] at hm
      have hsecond : ∀ first : Converted, (L.convertFuel fuel first.1 m t).Returns
          (L.Ends first.1) := fun first => ih first.1 t (of_decide_eq_true hm)
      apply Prog.returns_bind (ih c m hs)
      intro first hfirst
      dsimp only
      split
      · exact Prog.returns_bind (hsecond first) fun second hend => chainResult_ends L hfirst hend
      next b _ =>
        exact Prog.returns_bind (Prog.returns_supply (hsecond first) b)
          fun second hend => chainResult_ends L hfirst hend
    | forbidden => trivial
    | retain => exact ends_self L c
    | reinterpret => exact reinterpret_ends L c t
    | reformat => exact convertReformat_ends L c s t
    | possible => exact convertPossible_ends L c s t
    | values => exact convertValues_ends L c t hs
    | unclassified => trivial

/-- So a conversion without a new buffer keeps the checksum. -/
theorem convertFuel_keeps (fuel : Nat) (c : Checksum) {s : Celltype} (t : Celltype)
    (hs : s ≠ .checksum) : (L.convertFuel fuel c s t).Returns (Keeps c) :=
  Prog.returns_imp (fun _ h => h.keeps) (L.convertFuel_ends fuel c t hs)

end Libraries

end SeamlessCore
