/-
  SeamlessCore.Conversion.Tables — which rule converts which pair.

  Every pair of celltypes is in one table.  Trivial pairs keep the checksum;
  reinterpreting pairs keep it after a check, and are the trivial pairs the
  other way round; reformatting pairs always succeed; possible and value pairs
  may fail; equivalent pairs go by another pair, chained pairs through an
  intermediate celltype.

  Main results:
    * `rule_lists` — a pair is in the table that its rule stands for;
    * `check_conversions` — the tables are disjoint and leave no pair out.

  Source: `seamless/checksum/conversion.py`.
-/
import SeamlessCore.HashType.Classify

namespace SeamlessCore

namespace Conversion

open Celltype

/-! ## §1. The tables. -/

/-- `celltypes` -/
def celltypes : List Celltype :=
  [binary, mixed, text, python, ipython, plain, yaml, str, bytes, int, float, Celltype.bool,
    checksum]

instance : Fintype Celltype := Fintype.ofList celltypes fun t => by cases t <;> decide

abbrev Pair := Celltype × Celltype

instance decidableMemPair (conv : Pair) (table : List Pair) : Decidable (conv ∈ table) :=
  inferInstance

def trivialPairs : List Pair :=
  [(text, bytes), (ipython, text), (python, text), (python, ipython), (yaml, text), (plain, yaml),
    (plain, bytes), (binary, mixed), (plain, mixed), (str, plain), (int, plain), (float, plain),
    (Celltype.bool, plain), (int, float), (float, int), (int, str), (float, str),
    (Celltype.bool, str)]

/-- The trivial pairs the other way round, but for those with a reformatting
rule and those that are trivial both ways -/
def reinterpretPairs : List Pair :=
  (trivialPairs.map Prod.swap).filter fun conv =>
    conv ∉ trivialPairs ∧ conv ∉ [(ipython, python), (yaml, plain)]

def reformatPairs : List Pair :=
  [(bytes, binary), (bytes, mixed), (binary, bytes), (mixed, bytes), (plain, text), (text, plain),
    (text, str), (str, text), (yaml, plain), (ipython, python)]

def possiblePairs : List Pair :=
  [(binary, int), (binary, float), (binary, Celltype.bool), (mixed, str), (mixed, int),
    (mixed, float), (mixed, Celltype.bool)]

/-- `conversion_equivalent` -/
def equivalentPairs : List (Pair × Pair) :=
  [((yaml, str), (text, str)),
    ((text, mixed), (text, str)),
    ((yaml, mixed), (text, str)),
    ((python, str), (text, str)),
    ((ipython, str), (text, str)),
    ((python, mixed), (text, str)),
    ((ipython, mixed), (text, str)),
    ((python, plain), (text, str)),
    ((ipython, plain), (text, str)),
    ((str, yaml), (str, text)),
    ((str, python), (str, text)),
    ((str, ipython), (str, text)),
    ((python, bytes), (python, text)),
    ((ipython, bytes), (ipython, text)),
    ((str, mixed), (str, plain)),
    ((int, mixed), (int, plain)),
    ((float, mixed), (float, plain)),
    ((Celltype.bool, mixed), (Celltype.bool, plain)),
    ((str, binary), (plain, binary)),
    ((float, binary), (plain, binary)),
    ((int, binary), (plain, binary)),
    ((Celltype.bool, binary), (plain, binary)),
    ((python, binary), (text, binary)),
    ((ipython, binary), (text, binary)),
    ((yaml, bytes), (text, bytes)),
    ((str, bytes), (plain, bytes)),
    ((int, bytes), (plain, bytes)),
    ((float, bytes), (plain, bytes)),
    ((Celltype.bool, bytes), (plain, bytes)),
    ((int, text), (plain, text)),
    ((float, text), (plain, text)),
    ((Celltype.bool, text), (plain, text))]

/-- `conversion_chain`: the celltype in between -/
def chainPairs : List (Pair × Celltype) :=
  [((mixed, text), plain),
    ((mixed, yaml), text),
    ((mixed, ipython), text),
    ((mixed, python), text),
    ((binary, text), plain),
    ((binary, yaml), text),
    ((binary, ipython), text),
    ((binary, python), text),
    ((bytes, str), plain),
    ((bytes, float), plain),
    ((bytes, int), plain),
    ((bytes, Celltype.bool), plain),
    ((bytes, yaml), text),
    ((bytes, ipython), text),
    ((bytes, python), text),
    ((binary, str), bytes),
    ((plain, python), text),
    ((plain, ipython), text),
    ((text, binary), mixed),
    ((text, float), plain),
    ((text, int), plain),
    ((text, Celltype.bool), plain),
    ((yaml, binary), plain),
    ((yaml, int), plain),
    ((yaml, float), plain),
    ((yaml, Celltype.bool), plain),
    ((int, yaml), plain),
    ((float, yaml), plain),
    ((Celltype.bool, yaml), plain)]

def valuePairs : List Pair :=
  [(binary, plain), (plain, binary), (Celltype.bool, int), (int, Celltype.bool),
    (float, Celltype.bool), (Celltype.bool, float),
    (checksum, bytes), (checksum, mixed), (checksum, binary), (checksum, plain), (checksum, str),
    (checksum, int), (checksum, float), (checksum, Celltype.bool), (checksum, text),
    (checksum, yaml), (checksum, python), (checksum, ipython),
    (bytes, checksum), (mixed, checksum), (binary, checksum), (plain, checksum), (str, checksum),
    (int, checksum), (float, checksum), (Celltype.bool, checksum), (text, checksum),
    (yaml, checksum), (python, checksum), (ipython, checksum)]

def forbiddenPairs : List Pair :=
  [(python, yaml), (python, int), (python, float), (python, Celltype.bool), (ipython, yaml),
    (ipython, int), (ipython, float), (ipython, Celltype.bool), (yaml, python), (yaml, ipython),
    (int, python), (int, ipython), (float, python), (float, ipython), (Celltype.bool, python),
    (Celltype.bool, ipython)]

def lookupPair {X : Type} (table : List (Pair × X)) (conv : Pair) : Option X :=
  table.findSome? fun entry => if entry.1 = conv then some entry.2 else none

/-! ## §2. The rule of a pair. -/

/-- The branches of `_convert`. -/
inductive Rule where
  | same
  | equivalent (source target : Celltype)
  | chain (intermediate : Celltype)
  | forbidden
  | retain
  | reinterpret
  | reformat
  | possible
  | values
  | unclassified
  deriving DecidableEq, Repr

/-- The tests of `_convert`, in their order -/
def rule (source target : Celltype) : Rule :=
  let conv := (source, target)
  if source = target then .same
  else
    match lookupPair equivalentPairs conv with
    | some (source', target') => .equivalent source' target'
    | none =>
      match lookupPair chainPairs conv with
      | some intermediate => .chain intermediate
      | none =>
        if conv ∈ forbiddenPairs then .forbidden
        else if conv ∈ trivialPairs then .retain
        else if conv ∈ reinterpretPairs then .reinterpret
        else if conv ∈ reformatPairs then .reformat
        else if conv ∈ possiblePairs then .possible
        else if conv ∈ valuePairs then .values
        else .unclassified

/-- How many tables have the pair. -/
def categories (conv : Pair) : Nat :=
  [decide (conv ∈ trivialPairs), decide (conv ∈ reformatPairs), decide (conv ∈ reinterpretPairs),
    decide (conv ∈ possiblePairs), (lookupPair equivalentPairs conv).isSome,
    (lookupPair chainPairs conv).isSome, decide (conv ∈ valuePairs),
    decide (conv ∈ forbiddenPairs)].count true

/-! ### Pairs as numbers.

A table is looked up in one step when its pairs are the bits of one number. -/

/-- The numbers of a list, as the bits of one number -/
def bits : List Nat → Nat
  | [] => 0
  | n :: ns => 2 ^ n ||| bits ns

theorem testBit_bits (ns : List Nat) (n : Nat) : (bits ns).testBit n = decide (n ∈ ns) := by
  induction ns with
  | nil => simp [bits]
  | cons m ns ih =>
    show (2 ^ m ||| bits ns).testBit n = _
    rw [Nat.testBit_or, ih, Nat.testBit_two_pow]
    simp [eq_comm]

/-- The number of a pair -/
def code (conv : Pair) : Nat := 13 * conv.1.ctorIdx + conv.2.ctorIdx

theorem code_inj {p q : Pair} (h : code p = code q) : p = q := by
  have hlt : ∀ t : Celltype, t.ctorIdx < 13 := fun t => by cases t <;> decide
  have hinj : ∀ t t' : Celltype, t.ctorIdx = t'.ctorIdx → t = t' := by
    intro t t' ht
    cases t <;> cases t' <;> first | rfl | cases ht
  have hp := hlt p.2
  have hq := hlt q.2
  unfold code at h
  exact Prod.ext (hinj _ _ (by omega)) (hinj _ _ (by omega))

/-- A table as one number -/
def tableBits (table : List Pair) : Nat := bits (table.map code)

theorem testBit_tableBits (table : List Pair) (conv : Pair) :
    (tableBits table).testBit (code conv) = decide (conv ∈ table) := by
  unfold tableBits
  rw [testBit_bits, decide_eq_decide]
  constructor
  · intro h
    obtain ⟨q, hq, heq⟩ := List.mem_map.mp h
    rw [← code_inj heq]
    exact hq
  · exact fun h => List.mem_map_of_mem h

theorem lookupPair_isSome {X : Type} (table : List (Pair × X)) (conv : Pair) :
    (lookupPair table conv).isSome = decide (conv ∈ table.map Prod.fst) := by
  unfold lookupPair
  rw [Bool.eq_iff_iff, List.findSome?_isSome_iff, decide_eq_true_eq, List.mem_map]
  constructor
  · rintro ⟨e, he, hsome⟩
    by_cases heq : e.1 = conv
    · exact ⟨e, he, heq⟩
    · simp [heq] at hsome
  · rintro ⟨e, he, heq⟩
    exact ⟨e, he, by simp [heq]⟩

theorem mem_of_lookupPair {X : Type} {table : List (Pair × X)} {conv : Pair} {x : X}
    (h : lookupPair table conv = some x) : (conv, x) ∈ table := by
  obtain ⟨e, he, heq⟩ := List.exists_of_findSome?_eq_some h
  by_cases hconv : e.1 = conv
  · rw [if_pos hconv, Option.some.injEq] at heq
    rw [← hconv, ← heq]
    exact he
  · rw [if_neg hconv] at heq
    cases heq

theorem categories_eq (s t : Celltype) : categories (s, t) = if s = t then 0 else 1 := by
  have hbits : ∀ s t : Celltype,
      [(tableBits trivialPairs).testBit (code (s, t)), (tableBits reformatPairs).testBit (code (s, t)),
        (tableBits reinterpretPairs).testBit (code (s, t)),
        (tableBits possiblePairs).testBit (code (s, t)),
        (tableBits (equivalentPairs.map Prod.fst)).testBit (code (s, t)),
        (tableBits (chainPairs.map Prod.fst)).testBit (code (s, t)),
        (tableBits valuePairs).testBit (code (s, t)),
        (tableBits forbiddenPairs).testBit (code (s, t))].count true = if s = t then 0 else 1 := by
    decide
  have h := hbits s t
  simp only [testBit_tableBits] at h
  unfold categories
  rw [lookupPair_isSome, lookupPair_isSome]
  exact h

/-- Every pair of two celltypes is in exactly one table. -/
theorem check_conversions (s t : Celltype) (h : s ≠ t) : categories (s, t) = 1 := by
  rw [categories_eq, if_neg h]

theorem rule_classified (s t : Celltype) : rule s t ≠ .unclassified := by
  intro hrule
  have hone := categories_eq s t
  unfold rule at hrule
  unfold categories at hone
  by_cases hsame : s = t
  · rw [if_pos hsame] at hrule
    cases hrule
  rw [if_neg hsame] at hrule hone
  cases hequiv : lookupPair equivalentPairs (s, t) with
  | some conv => simp [hequiv] at hrule
  | none =>
    cases hchain : lookupPair chainPairs (s, t) with
    | some m => simp [hequiv, hchain] at hrule
    | none =>
      simp only [hequiv, hchain] at hrule hone
      split_ifs at hrule
      -- no table has the pair
      simp_all

/-- The table that a rule stands for has the pair. -/
def Rule.Lists : Rule → Pair → Prop
  | .same, (s, t) => s = t
  | .equivalent s' t', conv => lookupPair equivalentPairs conv = some (s', t')
  | .chain m, conv => lookupPair chainPairs conv = some m
  | .forbidden, conv => conv ∈ forbiddenPairs
  | .retain, conv => conv ∈ trivialPairs
  | .reinterpret, conv => conv ∈ reinterpretPairs
  | .reformat, conv => conv ∈ reformatPairs
  | .possible, conv => conv ∈ possiblePairs
  | .values, conv => conv ∈ valuePairs
  | .unclassified, _ => False

theorem rule_lists (s t : Celltype) : (rule s t).Lists (s, t) := by
  have hclassified := rule_classified s t
  revert hclassified
  unfold rule
  simp only
  by_cases hsame : s = t
  · rw [if_pos hsame]
    exact fun _ => hsame
  rw [if_neg hsame]
  cases hequiv : lookupPair equivalentPairs (s, t) with
  | some conv => exact fun _ => hequiv
  | none =>
    cases hchain : lookupPair chainPairs (s, t) with
    | some m => exact fun _ => hchain
    | none =>
      -- the tables in the order of the tests
      simp only
      split_ifs with h1 h2 h3 h4 h5 h6
      · exact fun _ => h1
      · exact fun _ => h2
      · exact fun _ => h3
      · exact fun _ => h4
      · exact fun _ => h5
      · exact fun _ => h6
      · exact fun h => absurd rfl h

/-- The place of a rule's table in `categories` -/
def Rule.place : Rule → Nat
  | .retain => 0
  | .reformat => 1
  | .reinterpret => 2
  | .possible => 3
  | .equivalent _ _ => 4
  | .chain _ => 5
  | .values => 6
  | .forbidden => 7
  | .same => 8
  | .unclassified => 9

/-- A list with one `true` has it in one place. -/
theorem place_of_count {flags : List Bool} (h : flags.count true ≤ 1) {i j : Nat}
    (hi : flags[i]? = some true) (hj : flags[j]? = some true) : i = j := by
  induction flags generalizing i j with
  | nil => cases hi
  | cons b flags ih =>
    -- the rest has none if the first is one
    have hrest : ∀ k, (b :: flags)[k + 1]? = some true → b = false := by
      intro k hk
      have hpos : 0 < flags.count true :=
        List.count_pos_iff.mpr (List.mem_of_getElem? (i := k) (by simpa using hk))
      cases b with
      | false => rfl
      | true =>
        rw [List.count_cons_self] at h
        omega
    cases i with
    | zero =>
      cases j with
      | zero => rfl
      | succ j =>
        rw [hrest j hj] at hi
        cases hi
    | succ i =>
      cases j with
      | zero =>
        rw [hrest i hi] at hj
        cases hj
      | succ j =>
        rw [hrest i hi, List.count_cons_of_ne (by simp)] at h
        have hij : i = j := ih h (by simpa using hi) (by simpa using hj)
        rw [hij]

/-- No pair is in two tables: its table tells the rule. -/
theorem rule_of_lists {s t : Celltype} {r : Rule} (h : r.Lists (s, t)) : rule s t = r := by
  have hcount := categories_eq s t
  unfold categories at hcount
  generalize hflags : [decide ((s, t) ∈ trivialPairs), decide ((s, t) ∈ reformatPairs),
    decide ((s, t) ∈ reinterpretPairs), decide ((s, t) ∈ possiblePairs),
    (lookupPair equivalentPairs (s, t)).isSome, (lookupPair chainPairs (s, t)).isSome,
    decide ((s, t) ∈ valuePairs), decide ((s, t) ∈ forbiddenPairs)] = flags at hcount
  have hplace : ∀ r : Rule, r.Lists (s, t) → r ≠ .same → flags[r.place]? = some true := by
    intro r hr hne
    rw [← hflags]
    cases r with
    | same => exact absurd rfl hne
    | unclassified => exact hr.elim
    | equivalent s' t' =>
      show some (lookupPair equivalentPairs (s, t)).isSome = some true
      rw [show lookupPair equivalentPairs (s, t) = some (s', t') from hr]
      rfl
    | chain m =>
      show some (lookupPair chainPairs (s, t)).isSome = some true
      rw [show lookupPair chainPairs (s, t) = some m from hr]
      rfl
    | _ => exact congrArg some (decide_eq_true hr)
  by_cases hsame : s = t
  · -- a celltype with itself is in no table
    rw [if_pos hsame] at hcount
    have hr : r = .same := by
      by_contra hne
      have hpos := List.count_pos_iff.mpr (List.mem_of_getElem? (hplace r h hne))
      omega
    rw [hr]
    exact if_pos hsame
  · rw [if_neg hsame] at hcount
    have hne : ∀ r : Rule, r.Lists (s, t) → r ≠ .same := by
      rintro r hr rfl
      exact hsame hr
    have hlists := rule_lists s t
    have hindex := place_of_count (by omega) (hplace r h (hne r h))
      (hplace (rule s t) hlists (hne _ hlists))
    generalize rule s t = r' at hindex hlists
    cases r with
    | equivalent s₁ t₁ =>
      cases r' with
      | equivalent s₂ t₂ =>
        have heq : some (s₂, t₂) = some (s₁, t₁) := Eq.trans (Eq.symm hlists) h
        cases heq
        rfl
      | _ => cases hindex
    | chain m₁ =>
      cases r' with
      | chain m₂ =>
        have heq : some m₂ = some m₁ := Eq.trans (Eq.symm hlists) h
        cases heq
        rfl
      | _ => cases hindex
    | _ => cases r' <;> first | rfl | cases hindex

/-- What holds of every entry of a table holds of the entry that is looked up. -/
theorem all_lookupPair {X : Type} {table : List (Pair × X)} {f : Pair → X → Bool}
    (h : (table.all fun | (conv, x) => f conv x) = true) (conv : Pair) :
    (lookupPair table conv).all (f conv) = true := by
  cases hlookup : lookupPair table conv with
  | none => rfl
  | some x => exact List.all_eq_true.mp h (conv, x) (mem_of_lookupPair hlookup)

/-! ## §3. The way to a target. -/

/-- How deep `_convert` calls itself for a pair, at most `fuel`. -/
def depth : (fuel : Nat) → Celltype → Celltype → Nat
  | 0, _, _ => 0
  | fuel + 1, s, t =>
    match rule s t with
    | .equivalent s' t' => depth fuel s' t' + 1
    | .chain m => max (depth fuel s m) (depth fuel m t) + 1
    | _ => 1

/-- Four calls are enough for every pair. -/
theorem depth_le (s t : Celltype) : depth 5 s t ≤ 4 := by
  have hequivs : (equivalentPairs.all fun | (_, (s, t)) => decide (depth 4 s t ≤ 3)) = true := by
    decide
  have hchains : (chainPairs.all fun
      | ((s, t), m) => decide (depth 4 s m ≤ 3 ∧ depth 4 m t ≤ 3)) = true := by
    decide
  have hlists := rule_lists s t
  unfold depth
  cases hrule : rule s t with
  | equivalent s' t' =>
    rw [hrule] at hlists
    have hle : depth 4 s' t' ≤ 3 :=
      of_decide_eq_true (List.all_eq_true.mp hequivs _ (mem_of_lookupPair hlists))
    show depth 4 s' t' + 1 ≤ 4
    omega
  | chain m =>
    rw [hrule] at hlists
    have hle : depth 4 s m ≤ 3 ∧ depth 4 m t ≤ 3 :=
      of_decide_eq_true (List.all_eq_true.mp hchains _ (mem_of_lookupPair hlists))
    show max (depth 4 s m) (depth 4 m t) + 1 ≤ 4
    omega
  | _ =>
    show 1 ≤ 4
    omega

end Conversion

end SeamlessCore
