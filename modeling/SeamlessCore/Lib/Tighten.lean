/-
  Tighten — a cell that keeps the tightest fact written to it.

  Facts are preordered by what they imply.  A write that the stored fact
  implies is ignored, one that implies the stored fact replaces it, and one
  that does neither is rejected.

  Main results:
    * `write_tightens`, `exec_tightens` — what is stored implies all that was
      stored before;
    * `exec_comparable` — comparable facts are never rejected, and the final
      fact is one of them and implies them all;
    * `exec_mutual` — it carries the same facts in every order.
-/
import SeamlessCore.Lib.Run

namespace Tighten

variable {X : Type} (implies : X → X → Bool)

/-! ## §1. One write. -/

/-- The cell after a write, and whether the write was accepted. -/
def write (stored : Option X) (incoming : X) : Option X × Bool :=
  match stored with
  | none => (some incoming, true)
  | some fact =>
    if implies fact incoming then (some fact, true)
    else if implies incoming fact then (some incoming, true)
    else (some fact, false)

/-- A write is accepted unless neither fact implies the other. -/
theorem write_accepted_iff (stored : Option X) (incoming : X) :
    (write implies stored incoming).2 = true ↔ ∀ fact, stored = some fact →
      implies fact incoming = true ∨ implies incoming fact = true := by
  unfold write
  cases stored with
  | none => simp
  | some fact =>
    dsimp only
    split
    next hfact => simp [hfact]
    next hfact =>
      split
      next hincoming => simp [hincoming]
      next hincoming => simp [hfact, hincoming]

/-- What a cell holds after another: a fact that implies the earlier one. -/
def Tighter : Option X → Option X → Prop
  | _, none => True
  | none, some _ => False
  | some fact, some earlier => implies fact earlier = true

variable {implies}
variable (hrefl : ∀ x, implies x x = true)
variable (htrans : ∀ x y z, implies x y = true → implies y z = true → implies x z = true)

include hrefl in
theorem Tighter.refl (cell : Option X) : Tighter implies cell cell := by
  cases cell with
  | none => exact trivial
  | some fact => exact hrefl fact

include htrans in
theorem Tighter.trans {a b c : Option X} (hab : Tighter implies a b) (hbc : Tighter implies b c) :
    Tighter implies a c := by
  cases c with
  | none => exact trivial
  | some z =>
    cases b with
    | none => cases hbc
    | some y =>
      cases a with
      | none => cases hab
      | some x => exact htrans x y z hab hbc

include hrefl in
theorem write_tightens (stored : Option X) (incoming : X) :
    Tighter implies (write implies stored incoming).1 stored := by
  unfold write
  cases stored with
  | none => exact trivial
  | some fact =>
    simp only
    split_ifs with h1 h2
    · exact hrefl fact
    · exact h2
    · exact hrefl fact

/-- A write leaves the cell unchanged or puts the fact into it. -/
theorem write_cases (stored : Option X) (incoming : X) :
    (write implies stored incoming).1 = stored ∨
      (write implies stored incoming).1 = some incoming := by
  unfold write
  cases stored with
  | none => exact .inr rfl
  | some fact =>
    dsimp only
    split_ifs
    · exact .inl rfl
    · exact .inr rfl
    · exact .inl rfl

/-- A rejected write leaves the cell unchanged. -/
theorem write_rejected {stored : Option X} {incoming : X}
    (h : (write implies stored incoming).2 = false) :
    (write implies stored incoming).1 = stored := by
  unfold write at h ⊢
  cases stored with
  | none => cases h
  | some fact =>
    simp only at h ⊢
    split_ifs at h ⊢
    · rfl

include hrefl in
/-- An accepted write is implied by what is then stored. -/
theorem write_accepted {stored : Option X} {incoming : X}
    (h : (write implies stored incoming).2 = true) :
    ∃ fact, (write implies stored incoming).1 = some fact ∧ implies fact incoming = true := by
  unfold write at h ⊢
  cases stored with
  | none => exact ⟨incoming, rfl, hrefl incoming⟩
  | some fact =>
    simp only at h ⊢
    split_ifs at h ⊢ with h1 h2
    · exact ⟨fact, rfl, h1⟩
    · exact ⟨incoming, rfl, hrefl incoming⟩

/-! ## §2. Runs of writes. -/

include hrefl htrans in
theorem exec_tightens (stored : Option X) (writes : List X) :
    Tighter implies (Run.exec (write implies) stored writes) stored := by
  induction writes generalizing stored with
  | nil => exact Tighter.refl hrefl stored
  | cons x xs ih =>
    exact Tighter.trans htrans (ih (write implies stored x).1) (write_tightens hrefl stored x)

/-- Any two of the facts are comparable. -/
def Comparable (implies : X → X → Bool) (facts : List X) : Prop :=
  ∀ x ∈ facts, ∀ y ∈ facts, implies x y = true ∨ implies y x = true

include hrefl htrans in
/-- Comparable facts are all accepted, and the last cell holds one of them
that implies them all. -/
theorem exec_comparable {facts : List X} (hcmp : Comparable implies facts) (writes : List X)
    (hsub : ∀ x ∈ writes, x ∈ facts) :
    (∀ entry ∈ Run.trace (write implies) none writes, entry.2 = true) ∧
      ∀ x ∈ writes, ∃ fact, Run.exec (write implies) none writes = some fact ∧
        fact ∈ writes ∧ implies fact x = true := by
  induction writes using List.reverseRecOn with
  | nil => exact ⟨(fun entry h => by cases h), fun x h => by cases h⟩
  | append_singleton xs x ih =>
    obtain ⟨haccepted, htightest⟩ := ih fun y hy => hsub y (List.mem_append_left _ hy)
    have hx : x ∈ facts := hsub x (by simp)
    -- the cell before the last write holds a fact of the list, or nothing
    have hstep : (write implies (Run.exec (write implies) none xs) x).2 = true ∧
        ∃ fact, (write implies (Run.exec (write implies) none xs) x).1 = some fact ∧
          fact ∈ xs ++ [x] ∧ implies fact x = true ∧ ∀ y ∈ xs, implies fact y = true := by
      cases xs with
      | nil =>
        exact ⟨rfl, x, rfl, by simp, hrefl x, fun y hy => by cases hy⟩
      | cons y ys =>
        obtain ⟨fact, hfact, hmem, -⟩ := htightest y (by simp)
        have himplies : ∀ z ∈ y :: ys, implies fact z = true := by
          intro z hz
          obtain ⟨fact', hfact', -, hz'⟩ := htightest z hz
          rw [hfact] at hfact'
          rw [Option.some.inj hfact']
          exact hz'
        have hfacts : fact ∈ facts := hsub fact (List.mem_append_left _ hmem)
        rw [hfact]
        unfold write
        simp only
        by_cases h1 : implies fact x = true
        · rw [if_pos h1]
          exact ⟨rfl, fact, rfl, List.mem_append_left _ hmem, h1, himplies⟩
        · have h2 : implies x fact = true := (hcmp fact hfacts x hx).resolve_left h1
          rw [if_neg h1, if_pos h2]
          refine ⟨rfl, x, rfl, by simp, hrefl x, ?_⟩
          intro z hz
          exact htrans x fact z h2 (himplies z hz)
    obtain ⟨hok, fact, hfact, hmem, hfx, hfxs⟩ := hstep
    refine ⟨?_, ?_⟩
    · intro entry hentry
      rw [Run.trace_snoc, List.mem_append, List.mem_singleton] at hentry
      rcases hentry with hentry | rfl
      · exact haccepted entry hentry
      · exact hok
    · intro y hy
      refine ⟨fact, ?_, hmem, ?_⟩
      · rw [Run.exec_snoc]
        exact hfact
      · rcases List.mem_append.mp hy with hy | hy
        · exact hfxs y hy
        · rw [List.mem_singleton.mp hy]
          exact hfx

include hrefl htrans in
/-- In every order, comparable facts leave facts that imply one another. -/
theorem exec_mutual {writes writes' : List X} (hperm : writes'.Perm writes)
    (hcmp : Comparable implies writes) :
    Tighter implies (Run.exec (write implies) none writes)
        (Run.exec (write implies) none writes') ∧
      Tighter implies (Run.exec (write implies) none writes')
        (Run.exec (write implies) none writes) := by
  have hone := (exec_comparable hrefl htrans hcmp writes fun x hx => hx).2
  have htwo := (exec_comparable hrefl htrans hcmp writes' fun x hx => hperm.mem_iff.mp hx).2
  cases writes with
  | nil =>
    rw [List.perm_nil.mp hperm]
    exact ⟨trivial, trivial⟩
  | cons x xs =>
    obtain ⟨fact, hfact, hmem, -⟩ := hone x (by simp)
    obtain ⟨fact', hfact', hmem', -⟩ := htwo x (hperm.mem_iff.mpr (by simp))
    -- each of the two is among the facts that the other implies
    obtain ⟨g, hg, -, hgf⟩ := hone fact' (hperm.mem_iff.mp hmem')
    obtain ⟨g', hg', -, hgf'⟩ := htwo fact (hperm.mem_iff.mpr hmem)
    rw [hfact] at hg
    rw [hfact'] at hg'
    rw [hfact, hfact']
    refine ⟨?_, ?_⟩
    · show implies fact fact' = true
      rw [Option.some.inj hg]
      exact hgf
    · show implies fact' fact = true
      rw [Option.some.inj hg']
      exact hgf'

end Tighten
