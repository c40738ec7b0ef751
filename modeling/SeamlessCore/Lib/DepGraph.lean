/-
  DepGraph — finite dependency graphs with repeated edges.

  A graph gives every key the list of its dependencies; a dependency may be
  listed more than once, and only finitely many keys have any.  The file
  defines how often a key is depended on, what is reachable from a set of
  roots, and what is dropped when edges go: the keys that nothing else leads to.

  Main results:
    * `inCount_erase`, `inCount_set` — how an update changes the counts;
    * `Dropped.not_reach` — what stays reachable is not dropped;
    * `exists_cycle` — where every key has a predecessor there is a cycle.
-/
import Mathlib

/-- A finite graph: the dependencies of every key. -/
structure DepGraph (K : Type) where
  deps : K → List K
  /-- The keys that have dependencies. -/
  keys : Finset K
  mem_keys : ∀ c, c ∈ keys ↔ deps c ≠ []

namespace DepGraph

variable {K : Type}

/-! ## §1. Updates. -/

/-- A graph is known by its dependencies. -/
theorem ext_deps {g h : DepGraph K} (heq : g.deps = h.deps) : g = h := by
  obtain ⟨deps, keys, hkeys⟩ := g
  obtain ⟨deps', keys', hkeys'⟩ := h
  have heq : deps = deps' := heq
  subst heq
  have hsame : keys = keys' := by
    ext c
    rw [hkeys c, hkeys' c]
  subst hsame
  rfl

variable [DecidableEq K]

/-- No dependencies at all -/
def empty : DepGraph K := ⟨fun _ => [], ∅, fun c => by simp⟩

/-- The graph without the dependencies of a key. -/
def erase (g : DepGraph K) (c : K) : DepGraph K where
  deps := Function.update g.deps c []
  keys := g.keys.erase c
  mem_keys d := by
    by_cases hd : d = c
    · subst hd
      simp
    · rw [Finset.mem_erase, Function.update_of_ne hd, g.mem_keys d]
      simp [hd]

/-- The graph with new dependencies of a key. -/
def set (g : DepGraph K) (c : K) (ds : List K) : DepGraph K where
  deps := Function.update g.deps c ds
  keys := if ds = [] then g.keys.erase c else insert c g.keys
  mem_keys d := by
    by_cases hd : d = c
    · subst hd
      rw [Function.update_self]
      split <;> simp_all
    · rw [Function.update_of_ne hd, ← g.mem_keys d]
      split <;> simp [hd]

@[simp] theorem deps_erase_self (g : DepGraph K) (c : K) : (g.erase c).deps c = [] :=
  Function.update_self _ _ _

theorem deps_erase_ne (g : DepGraph K) {c d : K} (h : d ≠ c) : (g.erase c).deps d = g.deps d :=
  Function.update_of_ne h _ _

@[simp] theorem deps_set_self (g : DepGraph K) (c : K) (ds : List K) : (g.set c ds).deps c = ds :=
  Function.update_self _ _ _

theorem deps_set_ne (g : DepGraph K) {c d : K} (ds : List K) (h : d ≠ c) :
    (g.set c ds).deps d = g.deps d :=
  Function.update_of_ne h _ _

/-- Erasing the dependencies of a key that has some leaves fewer keys. -/
theorem card_erase (g : DepGraph K) {c : K} (h : g.deps c ≠ []) :
    (g.erase c).keys.card + 1 = g.keys.card :=
  Finset.card_erase_add_one ((g.mem_keys c).mpr h)

/-! ## §2. Counts. -/

/-- How often a key is listed as a dependency. -/
def inCount (g : DepGraph K) (d : K) : Nat := ∑ c ∈ g.keys, (g.deps c).count d

@[simp] theorem inCount_empty (d : K) : (empty : DepGraph K).inCount d = 0 := rfl

theorem inCount_erase (g : DepGraph K) (c d : K) :
    (g.erase c).inCount d + (g.deps c).count d = g.inCount d := by
  have hsum : (g.erase c).inCount d = ∑ c' ∈ g.keys.erase c, (g.deps c').count d := by
    apply Finset.sum_congr rfl
    intro c' hc'
    rw [deps_erase_ne g (Finset.ne_of_mem_erase hc')]
  rw [hsum]
  by_cases hc : c ∈ g.keys
  · exact Finset.sum_erase_add g.keys (fun c' => (g.deps c').count d) hc
  · have hnil : g.deps c = [] := by
      by_contra hne
      exact hc ((g.mem_keys c).mpr hne)
    rw [Finset.erase_eq_of_notMem hc, hnil]
    rfl

theorem inCount_set (g : DepGraph K) {c : K} (h : g.deps c = []) (ds : List K) (d : K) :
    (g.set c ds).inCount d = g.inCount d + ds.count d := by
  have hback : (g.set c ds).erase c = g := by
    apply ext_deps
    funext c'
    by_cases hc' : c' = c
    · subst hc'
      rw [deps_erase_self, h]
    · rw [deps_erase_ne _ hc', deps_set_ne _ _ hc']
  have herase := inCount_erase (g.set c ds) c d
  rw [hback, deps_set_self] at herase
  exact herase.symm

/-- A key is depended on exactly when it counts. -/
theorem inCount_pos {g : DepGraph K} {d : K} : 0 < g.inCount d ↔ ∃ c, d ∈ g.deps c := by
  unfold inCount
  constructor
  · intro hpos
    obtain ⟨c, -, hc⟩ := Finset.exists_ne_zero_of_sum_ne_zero (Nat.ne_of_gt hpos)
    exact ⟨c, List.count_pos_iff.mp (Nat.pos_of_ne_zero hc)⟩
  · rintro ⟨c, hc⟩
    have hkey : c ∈ g.keys := (g.mem_keys c).mpr (List.ne_nil_of_mem hc)
    have hle := Finset.single_le_sum (f := fun c => (g.deps c).count d)
      (fun c' _ => Nat.zero_le _) hkey
    exact lt_of_lt_of_le (List.count_pos_iff.mpr hc) hle

end DepGraph

/-! ## §3. Reachability. -/

namespace DepGraph

variable {K : Type} {edge edge' : K → K → Prop} {root root' : K → Prop}

/-- Reachable from a root. -/
def Reach (edge : K → K → Prop) (root : K → Prop) (x : K) : Prop :=
  ∃ r, root r ∧ Relation.ReflTransGen edge r x

theorem Reach.of_root {x : K} (h : root x) : Reach edge root x := ⟨x, h, .refl⟩

theorem Reach.step {x y : K} (h : Reach edge root x) (hxy : edge x y) : Reach edge root y := by
  obtain ⟨r, hr, hpath⟩ := h
  exact ⟨r, hr, hpath.tail hxy⟩

/-- Induction along the way from a root. -/
theorem Reach.ind {P : K → Prop} {x : K} (h : Reach edge root x) (hroot : ∀ r, root r → P r)
    (hstep : ∀ a b, Reach edge root a → P a → edge a b → P b) : P x := by
  obtain ⟨r, hr, hpath⟩ := h
  induction hpath with
  | refl => exact hroot r hr
  | tail hab hbc ih => exact hstep _ _ ⟨r, hr, hab⟩ ih hbc

theorem Reach.mono (hroot : ∀ x, root x → root' x) (hedge : ∀ x y, edge x y → edge' x y) {x : K}
    (h : Reach edge root x) : Reach edge' root' x := by
  apply h.ind
  · exact fun r hr => .of_root (hroot r hr)
  · exact fun a b _ ha hab => ha.step (hedge a b hab)

/-- What is reachable is a root or has a reachable predecessor. -/
theorem Reach.cases {x : K} (h : Reach edge root x) :
    root x ∨ ∃ p, Reach edge root p ∧ edge p x := by
  obtain ⟨r, hr, hpath⟩ := h
  rcases Relation.ReflTransGen.cases_tail hpath with heq | ⟨p, hp, hedge⟩
  · subst heq
    exact .inl hr
  · exact .inr ⟨p, ⟨r, hr, hp⟩, hedge⟩

/-! ## §4. What is dropped. -/

/-- The keys that are dropped when the edges of the keys of `source` go: those
that are no root, were led to by something, and are led to by nothing else. -/
inductive Dropped (edge : K → K → Prop) (root source : K → Prop) : K → Prop where
  | intro (x : K) : ¬ root x → (∃ p, edge p x) →
      (∀ p, edge p x → ¬ source p → Dropped edge root source p) → Dropped edge root source x

/-- What is reachable without the edges that go is not dropped. -/
theorem Dropped.not_reach {source : K → Prop} {x : K} (h : Dropped edge root source x) :
    ¬ Reach (fun p y => edge p y ∧ ¬ source p) root x := by
  induction h with
  | intro x hroot _ hpreds ih =>
    intro hreach
    rcases hreach.cases with hx | ⟨p, hp, hedge, hsource⟩
    · exact hroot hx
    · exact ih p hedge hsource hp

/-! ## §5. Cycles. -/

/-- What is accessible along the edges is not on a cycle. -/
theorem acc_no_cycle {x : K} (h : Acc (fun x y => edge y x) x) : ¬ Relation.TransGen edge x x := by
  have hacc : Acc (Relation.TransGen fun x y => edge y x) x := h.transGen
  induction hacc with
  | intro x _ ih =>
    intro hcycle
    exact ih x hcycle.swap (h.inv_of_transGen hcycle.swap) hcycle

/-- In a finite set where every key has a predecessor there is a cycle. -/
theorem exists_cycle {B : Set K} (hfinite : B.Finite) (hne : B.Nonempty)
    (hpred : ∀ b ∈ B, ∃ p ∈ B, edge p b) : ∃ x ∈ B, Relation.TransGen edge x x := by
  have hfinite : Finite B := hfinite
  let inside : B → B → Prop := Relation.TransGen fun a b => edge a.1 b.1
  by_contra hnone
  have hirrefl : ∀ b : B, ¬ inside b b := by
    intro b hcycle
    apply hnone
    refine ⟨b.1, b.2, ?_⟩
    have hlift : ∀ a c : B, inside a c → Relation.TransGen edge a.1 c.1 := by
      intro a c hac
      exact hac.lift (fun b : B => b.1) fun _ _ h => h
    exact hlift b b hcycle
  have htrans : IsTrans B inside := ⟨fun _ _ _ hab hbc => Relation.TransGen.trans hab hbc⟩
  have hirrefl' : Std.Irrefl inside := ⟨hirrefl⟩
  have hwf : WellFounded inside := Finite.wellFounded_of_trans_of_irrefl inside
  obtain ⟨b, hb⟩ := hne
  -- a first key has no predecessor
  obtain ⟨m, -, hmin⟩ := hwf.has_min Set.univ ⟨⟨b, hb⟩, trivial⟩
  obtain ⟨p, hp, hedge⟩ := hpred m.1 m.2
  exact hmin ⟨p, hp⟩ trivial (Relation.TransGen.single hedge)

/-- In a finite set whose keys are roots or have predecessors in it, everything
is reachable when what is on a cycle is. -/
theorem reach_of_cycles {S : Set K} (hfinite : S.Finite)
    (hpred : ∀ x ∈ S, root x ∨ ∃ p ∈ S, edge p x)
    (hcycles : ∀ x, Relation.TransGen edge x x → Reach edge root x) :
    ∀ x ∈ S, Reach edge root x := by
  by_contra hnot
  push Not at hnot
  obtain ⟨x, hx, hunreached⟩ := hnot
  let B : Set K := {x ∈ S | ¬ Reach edge root x}
  have hsub : B ⊆ S := fun _ h => h.1
  -- a predecessor of what is not reached is not reached
  have hback : ∀ b ∈ B, ∃ p ∈ B, edge p b := by
    intro b hb
    rcases hpred b hb.1 with hroot | ⟨p, hp, hedge⟩
    · exact absurd (Reach.of_root hroot) hb.2
    · exact ⟨p, ⟨hp, fun hreach => hb.2 (hreach.step hedge)⟩, hedge⟩
  obtain ⟨y, hy, hcycle⟩ := exists_cycle (hfinite.subset hsub) ⟨x, hx, hunreached⟩ hback
  exact hy.2 (hcycles y hcycle)

end DepGraph
