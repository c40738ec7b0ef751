/-
  Dict — insertion-ordered dictionaries.

  An association list with distinct keys (`AList`) read as a dictionary that
  remembers the order of insertion: assigning to a present key keeps its
  place, assigning to a new key puts it last.

  Main results:
    * `lookup_set`, `lookup_erase` — the lookup after an update;
    * `foldl_pointwise` — a fold of updates that each concern one key.
-/
import Mathlib

/-- A dictionary from `K` to `V`.  The newest key comes first in `entries`. -/
abbrev Dict (K V : Type) := AList fun _ : K => V

namespace Dict

variable {K V : Type} [DecidableEq K]

/-! ## §1. Assignment. -/

/-- `d[k] = v` -/
def set (d : Dict K V) (k : K) (v : V) : Dict K V :=
  if k ∈ d then d.replace k v else d.insert k v

/-- `list(d)`, oldest first. -/
def keyList (d : Dict K V) : List K := d.keys.reverse

/-- `list(d.items())`, oldest first. -/
def items (d : Dict K V) : List (K × V) := (d.entries.map fun e => (e.1, e.2)).reverse

/-- Replacing a value is looked up at its own key only. -/
theorem dlookup_kreplace (k k' : K) (v : V) (l : List (Sigma fun _ : K => V)) :
    (l.kreplace k v).dlookup k' =
      if k' = k ∧ k ∈ l.keys then some v else l.dlookup k' := by
  induction l with
  | nil => simp [List.kreplace]
  | cons e l ih =>
    obtain ⟨a, w⟩ := e
    by_cases hka : k = a
    · subst hka
      -- the first entry with the key is the one that is replaced
      have hrep : List.kreplace k v (⟨k, w⟩ :: l) = ⟨k, v⟩ :: l := by
        refine List.lookmap_cons_some _ _ ?_
        simp
      rw [hrep]
      by_cases hk : k' = k
      · subst hk
        simp
      · simp [hk, List.dlookup_cons_ne]
    · have hrep : List.kreplace k v (⟨a, w⟩ :: l) = ⟨a, w⟩ :: List.kreplace k v l := by
        refine List.lookmap_cons_none _ _ ?_
        simp [hka]
      rw [hrep]
      by_cases hk : k' = a
      · subst hk
        simp [Ne.symm hka]
      · rw [List.dlookup_cons_ne _ _ hk, List.dlookup_cons_ne _ _ hk, ih]
        simp [hka]

theorem lookup_set (d : Dict K V) (k k' : K) (v : V) :
    (d.set k v).lookup k' = if k' = k then some v else d.lookup k' := by
  unfold set
  by_cases hk : k ∈ d
  · rw [if_pos hk]
    show (d.entries.kreplace k v).dlookup k' = _
    rw [dlookup_kreplace]
    have hmem : k ∈ d.entries.keys := hk
    simp only [hmem, and_true]
    rfl
  · rw [if_neg hk]
    by_cases heq : k' = k
    · rw [heq, if_pos rfl, AList.lookup_insert]
    · rw [if_neg heq, AList.lookup_insert_ne heq]

@[simp]
theorem lookup_set_self (d : Dict K V) (k : K) (v : V) : (d.set k v).lookup k = some v := by
  rw [lookup_set, if_pos rfl]

theorem lookup_set_ne (d : Dict K V) {k k' : K} (v : V) (h : k' ≠ k) :
    (d.set k v).lookup k' = d.lookup k' := by
  rw [lookup_set, if_neg h]

/-! ## §2. Deletion. -/

theorem lookup_erase (d : Dict K V) (k k' : K) :
    (d.erase k).lookup k' = if k' = k then none else d.lookup k' := by
  by_cases heq : k' = k
  · rw [heq, if_pos rfl, AList.lookup_erase]
  · rw [if_neg heq, AList.lookup_erase_ne heq]

omit [DecidableEq K] in
theorem mem_keyList {d : Dict K V} {k : K} : k ∈ d.keyList ↔ k ∈ d := by
  unfold keyList
  rw [List.mem_reverse, AList.mem_keys]

omit [DecidableEq K] in
theorem nodup_keyList (d : Dict K V) : d.keyList.Nodup := by
  unfold keyList
  rw [List.nodup_reverse]
  exact d.keys_nodup

theorem mem_items {d : Dict K V} {k : K} {v : V} : (k, v) ∈ d.items ↔ d.lookup k = some v := by
  have hmem : (k, v) ∈ d.items ↔ (⟨k, v⟩ : Sigma fun _ : K => V) ∈ d.entries := by
    unfold items
    simp only [List.mem_reverse, List.mem_map, Prod.mk.injEq]
    constructor
    · intro h
      obtain ⟨e, he, hk, hv⟩ := h
      rw [← hk, ← hv]
      exact he
    · intro h
      exact ⟨⟨k, v⟩, h, rfl, rfl⟩
  rw [hmem]
  exact (@AList.mem_lookup_iff _ _ _ k v d).symm

omit [DecidableEq K] in
theorem nodup_map_fst_items (d : Dict K V) : (d.items.map Prod.fst).Nodup := by
  unfold items
  rw [List.map_reverse, List.map_map, List.nodup_reverse]
  exact d.keys_nodup

/-! ## §3. Updates along a list of keys. -/

/-- Updates that each change what is seen at their own key, made once for each
key of a list, change what is seen at these keys and nowhere else. -/
theorem foldl_pointwise {S A : Type} (see : S → K → A) (update : S → K → S) (change : K → A → A)
    (h : ∀ s k k', see (update s k) k' = if k' = k then change k (see s k) else see s k')
    (keys : List K) :
    ∀ s, keys.Nodup → ∀ k, see (keys.foldl update s) k =
      if k ∈ keys then change k (see s k) else see s k := by
  induction keys with
  | nil => intro s _ k; simp
  | cons a keys ih =>
    intro s hnodup k
    obtain ⟨ha, hkeys⟩ := List.nodup_cons.mp hnodup
    rw [List.foldl_cons, ih (update s a) hkeys, h]
    -- the key that was updated first does not come again
    by_cases hk : k = a
    · subst hk
      simp [ha]
    · simp [hk]

end Dict
