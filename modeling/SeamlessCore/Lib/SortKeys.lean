/-
  SortKeys — association lists in the order of their keys.

  An association list with distinct keys stands for a dictionary with an order
  of insertion.  Sorting it by key forgets that order and nothing else.

  Main results:
    * `sortByKey_eq_of_perm` — reordered entries are sorted to the same list;
    * `map_sortByKey` — sorting commutes with functions of the values;
    * `eq_of_perm_of_keys` — the order of the keys is all that can differ;
    * `foldl_set` — setting keys leaves every entry in its place.
-/
import Mathlib

namespace Assoc

variable {K V W : Type}

/-- The keys, in order. -/
def keys (l : List (K × V)) : List K := l.map Prod.fst

/-- A function of the values -/
def mapValues (f : V → W) (l : List (K × V)) : List (K × W) := l.map fun e => (e.1, f e.2)

@[simp]
theorem keys_mapValues (f : V → W) (l : List (K × V)) : keys (mapValues f l) = keys l := by
  unfold keys mapValues
  rw [List.map_map]
  rfl

theorem keys_perm {l l' : List (K × V)} (h : l.Perm l') : (keys l).Perm (keys l') :=
  h.map Prod.fst

/-- Distinct keys make the value of an entry unique. -/
theorem eq_of_mem {l : List (K × V)} (h : (keys l).Nodup) {k : K} {v v' : V} (hv : (k, v) ∈ l)
    (hv' : (k, v') ∈ l) : v = v' := by
  have heq : (k, v) = (k, v') := List.inj_on_of_nodup_map h hv hv' rfl
  exact (Prod.mk.inj heq).2

/-- Entries with the same keys in the same order, up to a permutation, are the same. -/
theorem eq_of_perm_of_keys {l l' : List (K × V)} (h : (keys l).Nodup) (hkeys : keys l = keys l')
    (hperm : l.Perm l') : l = l' := by
  have hlength : l.length = l'.length := hperm.length_eq
  apply List.ext_getElem hlength
  intro n hn hn'
  have hkey : l[n].1 = l'[n].1 := by
    have hget : (keys l)[n]? = (keys l')[n]? := by rw [hkeys]
    unfold keys at hget
    simpa [hn, hn'] using hget
  have hmem : l'[n] ∈ l := hperm.mem_iff.mpr (List.getElem_mem hn')
  exact List.inj_on_of_nodup_map h (List.getElem_mem hn) hmem hkey

/-- What a lookup finds is an entry. -/
theorem mem_of_lookup [BEq K] [LawfulBEq K] {l : List (K × V)} {k : K} {v : V}
    (h : l.lookup k = some v) : (k, v) ∈ l := by
  induction l with
  | nil => cases h
  | cons e l ih =>
    rw [List.lookup_cons] at h
    cases hk : k == e.1 with
    | true =>
      rw [hk] at h
      have heq : k = e.1 := by simpa using hk
      rw [heq, ← Option.some.inj h]
      exact List.mem_cons_self
    | false =>
      rw [hk] at h
      exact List.mem_cons_of_mem e (ih h)

/-- With distinct keys, every entry is found. -/
theorem lookup_of_mem [BEq K] [LawfulBEq K] {l : List (K × V)} (hl : (keys l).Nodup) {k : K}
    {v : V} (h : (k, v) ∈ l) : l.lookup k = some v := by
  induction l with
  | nil => exact absurd h List.not_mem_nil
  | cons e l ih =>
    obtain ⟨hfirst, hrest⟩ := List.nodup_cons.mp hl
    rw [List.lookup_cons]
    rcases List.mem_cons.mp h with heq | hmem
    · rw [← heq, beq_self_eq_true]
    · have hne : k ≠ e.1 := by
        rintro rfl
        exact hfirst (List.mem_map.mpr ⟨_, hmem, rfl⟩)
      have hbeq : (k == e.1) = false := by simpa using hne
      rw [hbeq]
      exact ih hrest hmem

theorem lookup_mapValues [BEq K] (f : V → W) (l : List (K × V)) (k : K) :
    (mapValues f l).lookup k = (l.lookup k).map f := by
  induction l with
  | nil => rfl
  | cons e l ih =>
    show ((e.1, f e.2) :: mapValues f l).lookup k = _
    rw [List.lookup_cons, List.lookup_cons, ih]
    cases k == e.1 <;> rfl

/-- `l[k] = v`; a new key comes last. -/
def set [DecidableEq K] (l : List (K × V)) (k : K) (v : V) : List (K × V) :=
  if k ∈ keys l then l.map fun e => if e.1 = k then (k, v) else e else l ++ [(k, v)]

theorem set_of_mem [DecidableEq K] {l : List (K × V)} {k : K} (h : k ∈ keys l) (v : V) :
    set l k v = l.map fun e => if e.1 = k then (k, v) else e := if_pos h

theorem keys_set [DecidableEq K] {l : List (K × V)} {k : K} (h : k ∈ keys l) (v : V) :
    keys (set l k v) = keys l := by
  rw [set_of_mem h]
  unfold keys
  rw [List.map_map]
  refine List.map_congr_left fun e _ => ?_
  show (if e.1 = k then (k, v) else e).1 = e.1
  split
  next heq => exact heq.symm
  next => rfl

/-- Setting a key to its value changes nothing. -/
theorem set_self [DecidableEq K] {l : List (K × V)} (hl : (keys l).Nodup) {k : K} {v : V}
    (h : (k, v) ∈ l) : set l k v = l := by
  rw [set_of_mem (List.mem_map.mpr ⟨_, h, rfl⟩)]
  refine (List.map_congr_left fun e he => ?_).trans (List.map_id l)
  show (if e.1 = k then (k, v) else e) = e
  split
  next heq => exact List.inj_on_of_nodup_map hl h he heq.symm
  next => rfl

theorem lookup_set_ne [DecidableEq K] [BEq K] [LawfulBEq K] (l : List (K × V)) {k k' : K} (v : V)
    (h : k' ≠ k) : (set l k v).lookup k' = l.lookup k' := by
  have hnew : (k' == k) = false := by simpa using h
  have hmap : (l.map fun e => if e.1 = k then (k, v) else e).lookup k' = l.lookup k' := by
    induction l with
    | nil => rfl
    | cons e l ih =>
      rw [List.map_cons, List.lookup_cons, List.lookup_cons, ih]
      by_cases heq : e.1 = k
      · have hfirst : (k' == e.1) = false := by rwa [heq]
        rw [if_pos heq]
        simp only [hnew, hfirst]
      · rw [if_neg heq]
  unfold set
  split
  next => exact hmap
  next =>
    rw [List.lookup_append, List.lookup_cons, hnew]
    simp

/-- Setting keys that are there, once each, changes their values in their places. -/
theorem foldl_set [DecidableEq K] [BEq K] [LawfulBEq K] (us : List (K × V)) :
    ∀ l : List (K × V), (keys us).Nodup → (∀ k ∈ keys us, k ∈ keys l) →
    us.foldl (fun l u => set l u.1 u.2) l = l.map fun e => (e.1, (us.lookup e.1).getD e.2) := by
  induction us with
  | nil =>
    intro l _ _
    show l = l.map fun e => (e.1, e.2)
    rw [List.map_id']
  | cons u us ih =>
    intro l hnodup hmem
    obtain ⟨hu, hus⟩ := List.nodup_cons.mp hnodup
    have hfirst := hmem u.1 List.mem_cons_self
    rw [List.foldl_cons, ih _ hus fun k hk => keys_set hfirst u.2 ▸
      hmem k (List.mem_cons_of_mem _ hk), set_of_mem hfirst, List.map_map]
    refine List.map_congr_left fun e _ => ?_
    show ((if e.1 = u.1 then (u.1, u.2) else e).1, _) = _
    rw [List.lookup_cons]
    by_cases heq : e.1 = u.1
    · -- the key is set here, and not later
      have hnone : us.lookup u.1 = none := by
        rw [List.lookup_eq_none_iff]
        intro p hp
        have hne : u.1 ≠ p.1 := fun hkey => hu (List.mem_map.mpr ⟨p, hp, hkey.symm⟩)
        simpa using hne
      have hbeq : (e.1 == u.1) = true := by simpa using heq
      simp only [if_pos heq, hbeq, hnone]
      rw [heq]
      rfl
    · have hbeq : (e.1 == u.1) = false := by simpa using heq
      simp only [if_neg heq, hbeq]

/-- Entries whose keys come with new values -/
theorem map_lookup [BEq K] {l us : List (K × V)} {l' : List (K × W)} (g : W → V)
    (hkeys : keys l = keys l') (h : ∀ e ∈ l', us.lookup e.1 = some (g e.2)) :
    (l.map fun e => (e.1, (us.lookup e.1).getD e.2)) = mapValues g l' := by
  induction l generalizing l' with
  | nil =>
    cases l' with
    | nil => rfl
    | cons e' l' => cases hkeys
  | cons e l ih =>
    cases l' with
    | nil => cases hkeys
    | cons e' l' =>
      obtain ⟨hfirst, hrest⟩ := List.cons.inj (show e.1 :: keys l = e'.1 :: keys l' from hkeys)
      obtain ⟨he, hl⟩ := List.forall_mem_cons.mp h
      rw [List.map_cons, ih hrest hl, hfirst, he]
      rfl

variable [LinearOrder K]

/-- The key of `a` does not come after that of `b`. -/
def keyLe (a b : K × V) : Prop := a.1 ≤ b.1

instance : DecidableRel (keyLe : K × V → K × V → Prop) :=
  fun a b => inferInstanceAs (Decidable (a.1 ≤ b.1))

instance : Std.Total (keyLe : K × V → K × V → Prop) := ⟨fun a b => le_total a.1 b.1⟩

instance : IsTrans (K × V) keyLe := ⟨fun _ _ _ => le_trans⟩

/-- The entries in the order of their keys. -/
def sortByKey (l : List (K × V)) : List (K × V) := l.insertionSort keyLe

theorem sortByKey_perm (l : List (K × V)) : (sortByKey l).Perm l := List.perm_insertionSort keyLe l

theorem pairwise_sortByKey (l : List (K × V)) : (sortByKey l).Pairwise keyLe :=
  List.pairwise_insertionSort keyLe l

theorem sortByKey_eq_of_perm {l l' : List (K × V)} (h : (keys l).Nodup) (hperm : l.Perm l') :
    sortByKey l = sortByKey l' := by
  have hsorted : (sortByKey l).Perm (sortByKey l') :=
    (sortByKey_perm l).trans (hperm.trans (sortByKey_perm l').symm)
  refine List.Perm.eq_of_pairwise ?_ (pairwise_sortByKey l) (pairwise_sortByKey l') hsorted
  intro a b ha hb hab hba
  -- the keys are equal, and distinct in the list
  have ha' : a ∈ l := (sortByKey_perm l).mem_iff.mp ha
  have hb' : b ∈ l := hperm.mem_iff.mpr ((sortByKey_perm l').mem_iff.mp hb)
  exact List.inj_on_of_nodup_map h ha' hb' (le_antisymm hab hba)

theorem map_sortByKey (f : V → W) (l : List (K × V)) :
    mapValues f (sortByKey l) = sortByKey (mapValues f l) := by
  unfold mapValues sortByKey
  apply List.map_insertionSort
  intro a _ b _
  exact Iff.rfl

theorem nodup_keys_sortByKey {l : List (K × V)} :
    (keys (sortByKey l)).Nodup ↔ (keys l).Nodup :=
  (keys_perm (sortByKey_perm l)).nodup_iff

end Assoc
