/-
  Assign — assignments to association lists, and reordered traversals.

  Assigning to a key keeps the place of an entry that exists and puts a new
  entry last.  Distinct assignments in another order give the same entries;
  only the places of the new ones depend on the order.

  Main results:
    * `mem_assignAll` — the entries after a series of assignments;
    * `keys_assignAll` — their keys, in order;
    * `assignAll_append` — distinct new keys come last;
    * `assignAll_perm` — reordered assignments give the same entries;
    * `perm_of_collect` — a traversal that may fail, over reordered items;
    * `foldlM_perm` — updates that commute, in another order.
-/
import SeamlessCore.Lib.SortKeys

namespace Assoc

variable {K V A B : Type}

/-! ## §1. Assignments. -/

section

variable [DecidableEq K]

/-- `d[k] = v` -/
def assign : List (K × V) → K → V → List (K × V)
  | [], k, v => [(k, v)]
  | e :: l, k, v => if e.1 = k then (k, v) :: l else e :: assign l k v

/-- `d[k] = v` for several entries, one after the other -/
def assignAll (l : List (K × V)) (entries : List (K × V)) : List (K × V) :=
  entries.foldl (fun l e => assign l e.1 e.2) l

theorem assignAll_cons (l : List (K × V)) (e : K × V) (entries : List (K × V)) :
    assignAll l (e :: entries) = assignAll (assign l e.1 e.2) entries := rfl

/-- A present key keeps its place; a new key comes last. -/
theorem keys_assign (l : List (K × V)) (k : K) (v : V) :
    keys (assign l k v) = if k ∈ keys l then keys l else keys l ++ [k] := by
  induction l with
  | nil => simp [assign, keys]
  | cons e l ih =>
    unfold assign
    by_cases he : e.1 = k
    · rw [if_pos he, if_pos (by rw [← he]; exact List.mem_cons_self)]
      show k :: keys l = e.1 :: keys l
      rw [he]
    · rw [if_neg he]
      show e.1 :: keys (assign l k v) = _
      rw [ih]
      by_cases hk : k ∈ keys l
      · rw [if_pos hk, if_pos (show k ∈ keys (e :: l) from List.mem_cons_of_mem e.1 hk)]
        rfl
      · have hnot : k ∉ keys (e :: l) := by
          intro hmem
          rcases List.mem_cons.mp hmem with h | h
          · exact he h.symm
          · exact hk h
        rw [if_neg hk, if_neg hnot]
        rfl

theorem nodup_assign {l : List (K × V)} (h : (keys l).Nodup) (k : K) (v : V) :
    (keys (assign l k v)).Nodup := by
  rw [keys_assign]
  split
  · exact h
  next hk =>
    rw [List.nodup_append]
    refine ⟨h, List.nodup_singleton k, ?_⟩
    rintro a ha b hb rfl
    rw [List.mem_singleton.mp hb] at ha
    exact hk ha

theorem mem_assign {l : List (K × V)} (h : (keys l).Nodup) (k : K) (v : V) (e : K × V) :
    e ∈ assign l k v ↔ e = (k, v) ∨ e ∈ l ∧ e.1 ≠ k := by
  induction l with
  | nil => simp [assign]
  | cons f l ih =>
    obtain ⟨hfirst, hrest⟩ := List.nodup_cons.mp h
    unfold assign
    by_cases hf : f.1 = k
    · rw [if_pos hf, List.mem_cons, List.mem_cons]
      -- the other keys are different
      have hne : ∀ e ∈ l, e.1 ≠ k := by
        intro e he heq
        rw [hf, ← heq] at hfirst
        exact hfirst (List.mem_map_of_mem he)
      constructor
      · rintro (he | he)
        · exact .inl he
        · exact .inr ⟨.inr he, hne e he⟩
      · rintro (he | ⟨he | he, hk⟩)
        · exact .inl he
        · exact absurd (by rw [he]; exact hf) hk
        · exact .inr he
    · rw [if_neg hf, List.mem_cons, List.mem_cons, ih hrest]
      constructor
      · rintro (he | he | ⟨he, hk⟩)
        · exact .inr ⟨.inl he, by rw [he]; exact hf⟩
        · exact .inl he
        · exact .inr ⟨.inr he, hk⟩
      · rintro (he | ⟨he | he, hk⟩)
        · exact .inr (.inl he)
        · exact .inl he
        · exact .inr (.inr ⟨he, hk⟩)

theorem assign_of_not_mem {l : List (K × V)} {k : K} (hk : k ∉ keys l) (v : V) :
    assign l k v = l ++ [(k, v)] := by
  induction l with
  | nil => rfl
  | cons e l ih =>
    have hne : e.1 ≠ k := fun h => hk (by rw [← h]; exact List.mem_cons_self)
    have hrest : k ∉ keys l := fun h => hk (List.mem_cons_of_mem e.1 h)
    unfold assign
    rw [if_neg hne, ih hrest]
    rfl

/-- Distinct new keys come last, in their order. -/
theorem assignAll_append {l entries : List (K × V)} (h : (keys (l ++ entries)).Nodup) :
    assignAll l entries = l ++ entries := by
  induction entries generalizing l with
  | nil => exact (List.append_nil l).symm
  | cons e entries ih =>
    have hsplit : l ++ e :: entries = (l ++ [e]) ++ entries := by simp
    have hkey : e.1 ∉ keys l := by
      intro hmem
      unfold keys at h hmem
      rw [List.map_append, List.nodup_append] at h
      exact h.2.2 e.1 hmem e.1 (List.mem_cons_self) rfl
    rw [assignAll_cons, assign_of_not_mem hkey]
    rw [hsplit] at h ⊢
    exact ih h

theorem nodup_assignAll {l : List (K × V)} (h : (keys l).Nodup) (entries : List (K × V)) :
    (keys (assignAll l entries)).Nodup := by
  induction entries generalizing l with
  | nil => exact h
  | cons e entries ih => exact ih (nodup_assign h e.1 e.2)

/-- The entries after assignments to distinct keys -/
theorem mem_assignAll {l entries : List (K × V)} (h : (keys l).Nodup)
    (hentries : (keys entries).Nodup) (e : K × V) :
    e ∈ assignAll l entries ↔ e ∈ entries ∨ e ∈ l ∧ e.1 ∉ keys entries := by
  induction entries generalizing l with
  | nil => simp [assignAll, keys]
  | cons f entries ih =>
    obtain ⟨hfirst, hrest⟩ := List.nodup_cons.mp hentries
    rw [assignAll_cons, ih (nodup_assign h f.1 f.2) hrest, mem_assign h]
    have hkeys : keys (f :: entries) = f.1 :: keys entries := rfl
    rw [hkeys, List.mem_cons, List.mem_cons]
    constructor
    · rintro (he | ⟨he | ⟨he, hk⟩, hnot⟩)
      · exact .inl (.inr he)
      · exact .inl (.inl he)
      · exact .inr ⟨he, fun h => h.elim hk hnot⟩
    · rintro ((he | he) | ⟨he, hnot⟩)
      · refine .inr ⟨.inl he, ?_⟩
        rw [he]
        exact hfirst
      · exact .inl he
      · exact .inr ⟨.inr ⟨he, fun hk => hnot (.inl hk)⟩, fun hk => hnot (.inr hk)⟩

/-- The keys among `ks` that are not in `l`, in order -/
def newKeys (l : List (K × V)) (ks : List K) : List K := ks.filter fun k => k ∉ keys l

/-- The keys after assignments to distinct keys: the new ones come last, in order. -/
theorem keys_assignAll (l : List (K × V)) {entries : List (K × V)}
    (hentries : (keys entries).Nodup) :
    keys (assignAll l entries) = keys l ++ newKeys l (keys entries) := by
  induction entries generalizing l with
  | nil => simp [assignAll, newKeys, keys]
  | cons e entries ih =>
    obtain ⟨hfirst, hrest⟩ := List.nodup_cons.mp hentries
    rw [assignAll_cons, ih _ hrest]
    show _ = keys l ++ newKeys l (e.1 :: keys entries)
    unfold newKeys
    rw [keys_assign]
    by_cases he : e.1 ∈ keys l
    · rw [if_pos he, List.filter_cons_of_neg (by simpa using he)]
    · rw [if_neg he, List.filter_cons_of_pos (by simpa using he), List.append_assoc]
      show keys l ++ (e.1 :: _) = keys l ++ (e.1 :: _)
      congr 2
      -- the key that was added is not assigned again
      apply List.filter_congr
      intro k hk
      have hne : k ≠ e.1 := by
        rintro rfl
        exact hfirst hk
      simp [hne]

/-- Reordered assignments to distinct keys give the same entries. -/
theorem assignAll_perm {l entries entries' : List (K × V)} (h : (keys l).Nodup)
    (hentries : (keys entries).Nodup) (hperm : entries.Perm entries') :
    (assignAll l entries).Perm (assignAll l entries') := by
  have hentries' : (keys entries').Nodup := (keys_perm hperm).nodup_iff.mp hentries
  have hnodup := (nodup_assignAll h entries).of_map Prod.fst
  have hnodup' := (nodup_assignAll h entries').of_map Prod.fst
  apply (List.perm_ext_iff_of_nodup hnodup hnodup').mpr
  intro e
  rw [mem_assignAll h hentries, mem_assignAll h hentries', hperm.mem_iff,
    (keys_perm hperm).mem_iff]

/-- Reordered assignments leave the same list exactly when the new keys come in the same
order. -/
theorem assignAll_eq_iff {l entries entries' : List (K × V)} (h : (keys l).Nodup)
    (hentries : (keys entries).Nodup) (hperm : entries.Perm entries') :
    assignAll l entries = assignAll l entries' ↔
      newKeys l (keys entries) = newKeys l (keys entries') := by
  have hentries' : (keys entries').Nodup := (keys_perm hperm).nodup_iff.mp hentries
  constructor
  · intro heq
    have hkeys := congrArg keys heq
    rw [keys_assignAll l hentries, keys_assignAll l hentries'] at hkeys
    exact List.append_cancel_left hkeys
  · intro heq
    refine eq_of_perm_of_keys (nodup_assignAll h entries) ?_ (assignAll_perm h hentries hperm)
    rw [keys_assignAll l hentries, keys_assignAll l hentries', heq]

end

/-! ## §2. Traversals. -/

theorem lookup_perm [BEq K] [LawfulBEq K] {l l' : List (K × V)} (h : (keys l).Nodup)
    (hperm : l.Perm l') (k : K) : l.lookup k = l'.lookup k := by
  have h' : (keys l').Nodup := (keys_perm hperm).nodup_iff.mp h
  apply Option.ext
  intro v
  constructor
  · intro hv
    exact lookup_of_mem h' (hperm.mem_iff.mp (mem_of_lookup hv))
  · intro hv
    exact lookup_of_mem h (hperm.mem_iff.mpr (mem_of_lookup hv))

/-- A traversal that collects what `f` finds at every item finds the same in another
order, if it does not fail. -/
theorem perm_of_collect {g : List A → Option (List B)} (f : A → Option (List B))
    (hcons : ∀ a l, g (a :: l) = (f a).bind fun bs => (g l).map fun cs => bs ++ cs)
    {l l' : List A} (hperm : l.Perm l') :
    ∀ {bs : List B}, g l = some bs → ∃ bs', g l' = some bs' ∧ bs.Perm bs' := by
  induction hperm with
  | nil => exact fun h => ⟨_, h, List.Perm.refl _⟩
  | cons a _ ih =>
    intro bs h
    rw [hcons] at h ⊢
    obtain ⟨fs, hf, h⟩ := Option.bind_eq_some_iff.mp h
    obtain ⟨cs, hg, rfl⟩ := Option.map_eq_some_iff.mp h
    obtain ⟨cs', hg', hcs⟩ := ih hg
    refine ⟨fs ++ cs', ?_, hcs.append_left fs⟩
    rw [hf, Option.bind_some, hg']
    rfl
  | swap a b l =>
    intro bs h
    rw [hcons, hcons] at h
    obtain ⟨fs, hf, h⟩ := Option.bind_eq_some_iff.mp h
    obtain ⟨cs, hg, rfl⟩ := Option.map_eq_some_iff.mp h
    obtain ⟨fs', hf', hg⟩ := Option.bind_eq_some_iff.mp hg
    obtain ⟨ds, hds, rfl⟩ := Option.map_eq_some_iff.mp hg
    refine ⟨fs' ++ (fs ++ ds), ?_, ?_⟩
    · rw [hcons, hcons, hf', Option.bind_some, hf, Option.bind_some, hds]
      rfl
    · rw [← List.append_assoc, ← List.append_assoc]
      exact List.perm_append_comm.append_right ds
  | trans _ _ ih ih' =>
    intro bs h
    obtain ⟨bs', h', hbs⟩ := ih h
    obtain ⟨bs'', h'', hbs'⟩ := ih' h'
    exact ⟨bs'', h'', hbs.trans hbs'⟩

/-- Updates that commute at distinct keys of a kind, where an invariant holds, in another
order -/
theorem foldlM_perm {S : Type} {step : S → K × V → Option S} (P : S → Prop) (Q : K → Prop)
    (hstep : ∀ s e s', P s → step s e = some s' → P s')
    (hcomm : ∀ s, P s → ∀ e e', Q e.1 → Q e'.1 → e.1 ≠ e'.1 →
      (step s e).bind (fun s => step s e') = (step s e').bind (fun s => step s e))
    {l l' : List (K × V)} (hperm : l.Perm l') :
    (keys l).Nodup → (∀ e ∈ l, Q e.1) → ∀ s, P s → l.foldlM step s = l'.foldlM step s := by
  induction hperm with
  | nil => exact fun _ _ _ _ => rfl
  | cons e _ ih =>
    intro hl hQ s hs
    rw [List.foldlM_cons, List.foldlM_cons]
    cases hstepped : step s e with
    | none => rfl
    | some s' =>
      exact ih (List.nodup_cons.mp hl).2 (fun f hf => hQ f (List.mem_cons_of_mem e hf)) s'
        (hstep s e s' hs hstepped)
  | swap a b l =>
    intro hl hQ s hs
    have hne : b.1 ≠ a.1 := by
      intro heq
      have hfirst := (List.nodup_cons.mp hl).1
      exact hfirst (by rw [heq]; exact List.mem_cons_self)
    have hb := hQ b List.mem_cons_self
    have ha := hQ a (List.mem_cons_of_mem b List.mem_cons_self)
    -- two steps for different keys, in both orders, and the rest
    have hswap := congrArg (fun o : Option S => o.bind fun s => l.foldlM step s)
      (hcomm s hs b a hb ha hne)
    simpa [List.foldlM_cons, Option.bind_assoc] using hswap
  | trans hfirst _ ih ih' =>
    intro hl hQ s hs
    have hQ' := fun e he => hQ e (hfirst.mem_iff.mpr he)
    exact (ih hl hQ s hs).trans (ih' ((keys_perm hfirst).nodup_iff.mp hl) hQ' s hs)

end Assoc
