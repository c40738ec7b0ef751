/-
  Ring — circular doubly linked lists.

  Nodes have a pointer to the next node and one to the previous node, either
  of which may be missing.  A ring is a list of distinct nodes along which the
  pointers lead, and from the last node back to the first.

  Main results:
    * `IsRing.rotate` — every node of a ring is its first one;
    * `IsRing.unlink`, `IsRing.insertLast` — taking a node out, putting one in;
    * `IsRing.moveLast`, `IsRing.moveLast_head` — a node of a ring, taken out and
      put in before the first one.
-/
import Mathlib

namespace Ring

/-- The pointers of the nodes -/
structure Links (A : Type) where
  next : A → Option A
  prev : A → Option A

namespace Links

variable {A : Type} [DecidableEq A]

def setNext (p : Links A) (a : A) (b : Option A) : Links A :=
  { p with next := Function.update p.next a b }

def setPrev (p : Links A) (a : A) (b : Option A) : Links A :=
  { p with prev := Function.update p.prev a b }

@[simp] theorem setNext_next (p : Links A) (a : A) (b : Option A) (x : A) :
    (p.setNext a b).next x = if x = a then b else p.next x := Function.update_apply _ _ _ _

@[simp] theorem setNext_prev (p : Links A) (a : A) (b : Option A) :
    (p.setNext a b).prev = p.prev := rfl

@[simp] theorem setPrev_prev (p : Links A) (a : A) (b : Option A) (x : A) :
    (p.setPrev a b).prev x = if x = a then b else p.prev x := Function.update_apply _ _ _ _

@[simp] theorem setPrev_next (p : Links A) (a : A) (b : Option A) :
    (p.setPrev a b).next = p.next := rfl

omit [DecidableEq A] in
@[ext] theorem ext {p p' : Links A} (hnext : ∀ a, p.next a = p'.next a)
    (hprev : ∀ a, p.prev a = p'.prev a) : p = p' := by
  obtain ⟨next, prev⟩ := p
  obtain ⟨next', prev'⟩ := p'
  obtain rfl : next = next' := funext hnext
  obtain rfl : prev = prev' := funext hprev
  rfl

/-! ## §1. Rings. -/

/-- The pointers of two neighbours lead to each other. -/
def Adjacent (p : Links A) (a b : A) : Prop := p.next a = some b ∧ p.prev b = some a

/-- The nodes `h :: t`, in the order of the pointers, which lead back to `h`. -/
structure IsRing (p : Links A) (h : A) (t : List A) : Prop where
  nodup : (h :: t).Nodup
  linked : (h :: t ++ [h]).IsChain p.Adjacent

variable {p p' : Links A} {h n : A} {t pre post : List A}

omit [DecidableEq A] in
/-- Every node of a ring can be its first one. -/
theorem IsRing.rotate (hring : IsRing p h (pre ++ n :: post)) : IsRing p n (post ++ h :: pre) := by
  obtain ⟨hnodup, hlinked⟩ := hring
  refine ⟨?_, ?_⟩
  · have hperm : (n :: (post ++ h :: pre)).Perm (h :: (pre ++ n :: post)) :=
      @List.perm_append_comm _ (n :: post) (h :: pre)
    exact hperm.nodup_iff.mpr hnodup
  · have hsplit := List.isChain_split.mp
      (show (h :: pre ++ n :: (post ++ [h])).IsChain p.Adjacent by simpa using hlinked)
    have hjoin : (n :: post ++ h :: (pre ++ [n])).IsChain p.Adjacent :=
      List.isChain_split.mpr ⟨hsplit.2, hsplit.1⟩
    simpa using hjoin

omit [DecidableEq A] in
/-- A chain only depends on the pointers along it. -/
theorem isChain_frame {l : List A} (hl : l.IsChain p.Adjacent)
    (hnext : ∀ a ∈ l.dropLast, p'.next a = p.next a)
    (hprev : ∀ a ∈ l.tail, p'.prev a = p.prev a) : l.IsChain p'.Adjacent := by
  induction l with
  | nil => exact .nil
  | cons a l ih =>
    cases l with
    | nil => exact .singleton a
    | cons b l =>
      obtain ⟨⟨hab, hba⟩, hrest⟩ := List.isChain_cons_cons.mp hl
      refine List.isChain_cons_cons.mpr ⟨⟨?_, ?_⟩, ih hrest ?_ ?_⟩
      · rw [hnext a (by simp), hab]
      · rw [hprev b (by simp), hba]
      · intro x hx
        exact hnext x (by simp [hx])
      · intro x hx
        exact hprev x (by simpa using Or.inr hx)

omit [DecidableEq A] in
/-- A part of a chain is replaced by another that begins and ends alike. -/
theorem isChain_replace {l₁ l₂ m m' : List A} {a b : A}
    (hl : (l₁ ++ a :: (m ++ b :: l₂)).IsChain p.Adjacent)
    (hm : (a :: (m' ++ [b])).IsChain p'.Adjacent)
    (hnext : ∀ x ∈ l₁ ++ (b :: l₂).dropLast, p'.next x = p.next x)
    (hprev : ∀ x ∈ (l₁ ++ [a]).tail ++ l₂, p'.prev x = p.prev x) :
    (l₁ ++ a :: (m' ++ b :: l₂)).IsChain p'.Adjacent := by
  obtain ⟨hfront, hrest⟩ := List.isChain_split.mp hl
  have hback := (List.isChain_split.mp
    (show (a :: m ++ b :: l₂).IsChain p.Adjacent by simpa using hrest)).2
  have hfront' : (l₁ ++ [a]).IsChain p'.Adjacent := by
    refine isChain_frame hfront (fun x hx => hnext x ?_) fun x hx => hprev x ?_
    · rw [List.dropLast_concat] at hx
      exact List.mem_append_left _ hx
    · exact List.mem_append_left _ hx
  have hback' : (b :: l₂).IsChain p'.Adjacent :=
    isChain_frame hback (fun x hx => hnext x (List.mem_append_right _ hx))
      fun x hx => hprev x (List.mem_append_right _ hx)
  refine List.isChain_split.mpr ⟨hfront', ?_⟩
  show (a :: m' ++ b :: l₂).IsChain p'.Adjacent
  exact List.isChain_split.mpr ⟨by simpa using hm, hback'⟩

/-- The nodes, in the order of the pointers -/
def Nodes (p : Links A) (l : List A) : Prop := ∃ h t, l = h :: t ∧ IsRing p h t

omit [DecidableEq A] in
theorem Nodes.nodup {l : List A} (hl : Nodes p l) : l.Nodup := by
  obtain ⟨h, t, rfl, hring⟩ := hl
  exact hring.nodup

omit [DecidableEq A] in
/-- The last node can be the first one. -/
theorem Nodes.rotate_last {l : List A} {z : A} (hl : Nodes p (l ++ [z])) : Nodes p (z :: l) := by
  obtain ⟨h, t, heq, hring⟩ := hl
  cases l with
  | nil =>
    obtain ⟨rfl, rfl⟩ := List.cons.inj heq
    exact ⟨_, _, rfl, hring⟩
  | cons a l =>
    obtain ⟨rfl, rfl⟩ := List.cons.inj heq
    exact ⟨z, _, by simp, @IsRing.rotate _ _ _ _ l [] hring⟩

omit [DecidableEq A] in
/-- The pointer of the first node to the previous one leads to the last. -/
theorem Nodes.prev_head {l : List A} {h z : A} (hl : Nodes p (l ++ [z]))
    (hhead : (l ++ [z]).head? = some h) : p.prev h = some z := by
  obtain ⟨h', t, heq, hring⟩ := hl
  rw [heq] at hhead
  obtain rfl : h' = h := Option.some.inj hhead
  have hlinked := hring.linked
  rw [← heq] at hlinked
  exact (List.isChain_append_cons_cons.mp (show (l ++ z :: h' :: []).IsChain p.Adjacent by
    simpa using hlinked)).2.1.2

omit [DecidableEq A] in
/-- The pointer of the first node to the next one leads to the rest, which it may follow. -/
theorem Nodes.next_head {a : A} {l : List A} (hl : Nodes p (a :: l)) :
    ∃ b, p.next a = some b ∧ (l ++ [a]).head? = some b ∧ Nodes p (l ++ [a]) := by
  obtain ⟨h, t, heq, hring⟩ := hl
  obtain ⟨rfl, rfl⟩ := List.cons.inj heq
  cases l with
  | nil =>
    have hlinked := hring.linked
    exact ⟨a, (List.isChain_cons_cons.mp hlinked).1.1, rfl, a, [], rfl, hring⟩
  | cons b l =>
    have hlinked := hring.linked
    refine ⟨b, (List.isChain_cons_cons.mp hlinked).1.1, rfl, b, l ++ [a], rfl, ?_⟩
    exact @IsRing.rotate _ _ _ _ [] l hring

/-! ## §2. Taking nodes out and putting them in. -/

/-- `node.prev.next = node.next; node.next.prev = node.prev` -/
def unlink (p : Links A) (n : A) : Option (Links A) := do
  let a ← p.prev n
  let p := p.setNext a (p.next n)
  let b ← p.next n
  return p.setPrev b (p.prev n)

/-- `node.prev = head.prev; node.next = head.prev.next; node.next.prev = node;
node.prev.next = node` -/
def insertBefore (p : Links A) (h n : A) : Option (Links A) := do
  let p := p.setPrev n (p.prev h)
  let z ← p.prev h
  let p := p.setNext n (p.next z)
  let y ← p.next n
  let p := p.setPrev y (some n)
  let z ← p.prev n
  return p.setNext z (some n)

omit [DecidableEq A] in
/-- The last node of a nonempty list, in front of `m` -/
theorem exists_last (h : A) (t m : List A) : ∃ front a, h :: t = front ++ [a] ∧
    h :: t ++ m = front ++ a :: m := by
  refine ⟨(h :: t).dropLast, (h :: t).getLast (by simp), ?_, ?_⟩
  · exact (List.dropLast_append_getLast _).symm
  · rw [← List.singleton_append (l := m), ← List.append_assoc, List.dropLast_append_getLast]

/-- Taking a node out leaves the ring of the others. -/
theorem IsRing.unlink (hring : IsRing p h (pre ++ n :: post)) :
    ∃ p', p.unlink n = some p' ∧ IsRing p' h (pre ++ post) := by
  obtain ⟨hnodup, hlinked⟩ := hring
  obtain ⟨front, a, hfront, -⟩ := exists_last h pre []
  obtain ⟨b, back, hback⟩ : ∃ b back, post ++ [h] = b :: back := by
    cases post with
    | nil => exact ⟨h, [], rfl⟩
    | cons b post => exact ⟨b, post ++ [h], rfl⟩
  have hchain : (front ++ a :: ([n] ++ b :: back)).IsChain p.Adjacent := by
    have hwhole : h :: (pre ++ n :: post) ++ [h] = front ++ a :: ([n] ++ b :: back) := by
      have happend : h :: (pre ++ n :: post) ++ [h] = h :: pre ++ n :: (post ++ [h]) := by simp
      rw [happend, hfront, hback]
      simp
    rwa [hwhole] at hlinked
  -- the node and its neighbours
  have hneighbours := (List.isChain_append_cons_cons.mp hchain)
  obtain ⟨-, ⟨hnext_a, hprev_n⟩, hrest⟩ := hneighbours
  obtain ⟨⟨hnext_n, hprev_b⟩, -⟩ := List.isChain_cons_cons.mp hrest
  refine ⟨(p.setNext a (some b)).setPrev b (some a), ?_, ?_, ?_⟩
  · unfold Links.unlink
    simp [hprev_n, hnext_n]
  · exact hnodup.sublist (List.Sublist.cons_cons h
      ((List.Sublist.refl pre).append (List.sublist_cons_self n post)))
  · have hwhole : h :: (pre ++ post) ++ [h] = front ++ a :: ([] ++ b :: back) := by
      have happend : h :: (pre ++ post) ++ [h] = h :: pre ++ (post ++ [h]) := by simp
      rw [happend, hfront, hback]
      simp
    rw [hwhole]
    have hdisjoint : (h :: pre ++ n :: post).Nodup := by simpa using hnodup
    have ha : a ∈ h :: pre := hfront ▸ List.mem_append_right _ List.mem_cons_self
    have hb : b ∈ post ++ [h] := hback ▸ List.mem_cons_self
    refine isChain_replace hchain ?_ (fun x hx => ?_) fun x hx => ?_
    · refine List.isChain_cons_cons.mpr ⟨⟨?_, ?_⟩, .singleton b⟩ <;> simp
    · -- only the pointer of `a` to the next node changed
      have hpost : (b :: back).dropLast = post := by rw [← hback, List.dropLast_concat]
      rw [hpost] at hx
      have hxa : x ≠ a := by
        rintro rfl
        rcases List.mem_append.mp hx with hmem | hmem
        · have hnodup' : (front ++ [x]).Nodup := hfront ▸ (List.nodup_append.mp hdisjoint).1
          exact (List.nodup_append.mp hnodup').2.2 x hmem x List.mem_cons_self rfl
        · exact (List.nodup_append.mp hdisjoint).2.2 x ha x (List.mem_cons_of_mem _ hmem) rfl
      simp [hxa]
    · have hpre : (front ++ [a]).tail = pre := by rw [← hfront, List.tail_cons]
      rw [hpre] at hx
      have hxb : x ≠ b := by
        rintro rfl
        rcases List.mem_append.mp hx with hmem | hmem
        · rcases List.mem_append.mp hb with hpost | hhead
          · exact (List.nodup_append.mp hdisjoint).2.2 x (List.mem_cons_of_mem _ hmem) x
              (List.mem_cons_of_mem _ hpost) rfl
          · rw [List.mem_singleton.mp hhead] at hmem
            exact (List.nodup_cons.mp hnodup).1 (List.mem_append_left _ hmem)
        · have hnodup' : (post ++ [h]).Nodup := by
            have hrotated := (IsRing.rotate ⟨hnodup, hlinked⟩).nodup
            exact (List.nodup_cons.mp hrotated).2.sublist
              ((List.Sublist.refl post).append (List.singleton_sublist.mpr List.mem_cons_self))
          rw [hback] at hnodup'
          exact (List.nodup_cons.mp hnodup').1 hmem
      simp [hxb]

/-- A node that is put in before the first one is the last of the ring. -/
theorem IsRing.insertLast (hring : IsRing p h t) (hn : n ∉ h :: t) :
    ∃ p', p.insertBefore h n = some p' ∧ IsRing p' h (t ++ [n]) := by
  obtain ⟨hnodup, hlinked⟩ := hring
  obtain ⟨front, z, hfront, hwhole⟩ := exists_last h t [h]
  rw [hwhole] at hlinked
  obtain ⟨-, ⟨hnext_z, hprev_h⟩, -⟩ := List.isChain_append_cons_cons.mp hlinked
  have hz : z ∈ h :: t := hfront ▸ List.mem_append_right _ List.mem_cons_self
  have hnz : n ≠ z := fun heq => hn (heq ▸ hz)
  have hnh : n ≠ h := fun heq => hn (heq ▸ List.mem_cons_self)
  refine ⟨(((p.setPrev n (some z)).setNext n (some h)).setPrev h (some n)).setNext z (some n),
    ?_, ?_, ?_⟩
  · unfold insertBefore
    simp [hprev_h, hnext_z, hnh, hnh.symm]
  · have hperm : (h :: (t ++ [n])).Perm (n :: h :: t) :=
      @List.perm_append_comm _ (h :: t) [n]
    rw [hperm.nodup_iff]
    exact List.nodup_cons.mpr ⟨hn, hnodup⟩
  · -- the new node stands between the last one and the head
    have hwhole' : h :: (t ++ [n]) ++ [h] = front ++ z :: ([n] ++ h :: []) := by
      have happend : h :: (t ++ [n]) ++ [h] = h :: t ++ [n, h] := by simp
      rw [happend, hfront]
      simp
    rw [hwhole']
    refine isChain_replace (m := []) hlinked ?_ (fun x hx => ?_) fun x hx => ?_
    · refine List.isChain_cons_cons.mpr ⟨⟨?_, ?_⟩, List.isChain_cons_cons.mpr ⟨⟨?_, ?_⟩,
        .singleton h⟩⟩ <;> simp [hnz, hnh]
    · have hx' : x ∈ front := by simpa using hx
      -- no other pointer is touched
      have hxz : x ≠ z := by
        rintro rfl
        rw [hfront] at hnodup
        exact (List.nodup_append.mp hnodup).2.2 x hx' x List.mem_cons_self rfl
      have hxn : x ≠ n := by
        rintro rfl
        exact hn (hfront ▸ List.mem_append_left _ hx')
      simp [hxz, hxn]
    · have hx' : x ∈ t := by
        rw [← hfront] at hx
        simpa using hx
      have hxh : x ≠ h := by
        rintro rfl
        exact (List.nodup_cons.mp hnodup).1 hx'
      have hxn : x ≠ n := by
        rintro rfl
        exact hn (List.mem_cons_of_mem _ hx')
      simp [hxh, hxn]

/-- A node is taken out and put in before the first one. -/
def moveBefore (p : Links A) (h n : A) : Option (Links A) := do
  let p ← p.unlink n
  p.insertBefore h n

/-- A node other than the first one becomes the last. -/
theorem IsRing.moveLast (hring : IsRing p h (pre ++ n :: post)) :
    ∃ p', p.moveBefore h n = some p' ∧ IsRing p' h (pre ++ post ++ [n]) := by
  obtain ⟨p₁, hunlink, hring₁⟩ := hring.unlink
  have hn : n ∉ h :: (pre ++ post) := by
    have hperm : (h :: (pre ++ n :: post)).Perm (n :: h :: (pre ++ post)) :=
      (List.perm_middle.cons h).trans (List.Perm.swap n h _)
    exact (List.nodup_cons.mp (hperm.nodup_iff.mp hring.nodup)).1
  obtain ⟨p', hinsert, hring'⟩ := hring₁.insertLast hn
  refine ⟨p', ?_, hring'⟩
  unfold moveBefore
  rw [hunlink]
  exact hinsert

/-- The first node stays where it is. -/
theorem IsRing.moveLast_head (hring : IsRing p h t) : p.moveBefore h h = some p := by
  obtain ⟨hnodup, hlinked⟩ := hring
  obtain ⟨x, back, hback⟩ : ∃ x back, t ++ [h] = x :: back := by
    cases t with
    | nil => exact ⟨h, [], rfl⟩
    | cons x t => exact ⟨x, t ++ [h], rfl⟩
  obtain ⟨front, a, hfront, hwhole⟩ := exists_last h t [h]
  have hnext : p.next h = some x ∧ p.prev x = some h := by
    have hlinked' : (h :: (t ++ [h])).IsChain p.Adjacent := hlinked
    rw [hback] at hlinked'
    exact (List.isChain_cons_cons.mp hlinked').1
  have hprev : p.next a = some h ∧ p.prev h = some a := by
    rw [hwhole] at hlinked
    exact (List.isChain_append_cons_cons.mp hlinked).2.1
  have hunlink : p.unlink h = some ((p.setNext a (some x)).setPrev x (some a)) := by
    unfold Links.unlink
    simp [hprev.2, hnext.1]
  have hinsert : ((p.setNext a (some x)).setPrev x (some a)).insertBefore h h =
      some ((((((p.setNext a (some x)).setPrev x (some a)).setPrev h (some a)).setNext h
        (some x)).setPrev x (some h)).setNext a (some h)) := by
    unfold Links.insertBefore
    by_cases hhx : h = x
    · -- a ring of one node
      have hha : h = a := by
        rw [← hhx] at hnext
        exact Option.some.inj (hnext.2.symm.trans hprev.2)
      simp [← hhx, ← hha]
    · simp [hhx, hprev.2]
  unfold moveBefore
  rw [hunlink]
  refine hinsert.trans (congrArg some (Links.ext (fun y => ?_) fun y => ?_))
  · simp only [setNext_next, setPrev_next]
    split_ifs with hya hyh
    · rw [hya, hprev.1]
    · rw [hyh, hnext.1]
    · rfl
  · simp only [setPrev_prev, setNext_prev]
    split_ifs with hyx hyh
    · rw [hyx, hnext.2]
    · rw [hyh, hprev.2]
    · rfl

/-- A node of a ring is moved to its front. -/
theorem Nodes.moveFront (hl : Nodes p (pre ++ n :: post))
    (hhead : (pre ++ n :: post).head? = some h) :
    ∃ p', p.moveBefore h n = some p' ∧ Nodes p' (n :: (pre ++ post)) := by
  obtain ⟨h', t, heq, hring⟩ := hl
  rw [heq] at hhead
  obtain rfl : h' = h := Option.some.inj hhead
  cases pre with
  | nil =>
    obtain ⟨rfl, rfl⟩ := List.cons.inj heq
    exact ⟨p, hring.moveLast_head, n, post, rfl, hring⟩
  | cons a pre =>
    obtain ⟨rfl, rfl⟩ := List.cons.inj heq
    obtain ⟨p', hmove, hring'⟩ := hring.moveLast
    exact ⟨p', hmove, n, a :: (pre ++ post), rfl, hring'.rotate⟩

/-! ## §3. Longer and shorter rings. -/

/-- `node.next = head; node.prev = head.prev; head.prev.next = node; head.prev = node` -/
def append (p : Links A) (h n : A) : Option (Links A) := do
  let p := p.setNext n (some h)
  let p := p.setPrev n (p.prev h)
  let z ← p.prev h
  let p := p.setNext z (some n)
  return p.setPrev h (some n)

/-- A new node is the last of the ring. -/
theorem Nodes.append {l : List A} (hl : Nodes p l) (hhead : l.head? = some h) (hn : n ∉ l) :
    ∃ p', p.append h n = some p' ∧ Nodes p' (l ++ [n]) := by
  obtain ⟨h', t, rfl, hring⟩ := hl
  obtain rfl : h' = h := Option.some.inj hhead
  obtain ⟨p', hinsert, hring'⟩ := hring.insertLast hn
  refine ⟨p', ?_, h', t ++ [n], rfl, hring'⟩
  obtain ⟨front, z, hfront, -⟩ := exists_last h' t []
  have hnh : h' ≠ n := fun heq => hn (heq ▸ List.mem_cons_self)
  have hprev : p.prev h' = some z :=
    Nodes.prev_head (l := front) ⟨h', t, hfront.symm, hring⟩ (by rw [← hfront]; rfl)
  have hnext : p.next z = some h' := by
    have hlinked := hring.linked
    rw [hfront] at hlinked
    exact (List.isChain_append_cons_cons.mp (show (front ++ z :: h' :: []).IsChain p.Adjacent by
      simpa using hlinked)).2.1.1
  -- the four assignments, in another order
  rw [← hinsert]
  unfold Links.append insertBefore
  simp only [setNext_prev, setPrev_prev, hnh, hnh.symm, if_false, hprev, Option.bind_eq_bind,
    Option.bind_some, setPrev_next, setNext_next, hnext, if_true, Option.pure_def]
  refine congrArg some (Links.ext (fun y => ?_) fun y => rfl)
  simp only [setNext_next, setPrev_next]

/-- `head.prev = node.prev; node.prev.next = head; node.prev = None; node.next = None` for
the last node -/
def cut (p : Links A) (h n : A) : Option (Links A) := do
  let p := p.setPrev h (p.prev n)
  let a ← p.prev n
  let p := p.setNext a (some h)
  return (p.setPrev n none).setNext n none

omit [DecidableEq A] in
/-- A ring only depends on the pointers of its nodes. -/
theorem Nodes.frame {l : List A} (hl : Nodes p l) (hnext : ∀ a ∈ l, p'.next a = p.next a)
    (hprev : ∀ a ∈ l, p'.prev a = p.prev a) : Nodes p' l := by
  obtain ⟨h, t, rfl, hnodup, hlinked⟩ := hl
  refine ⟨h, t, rfl, hnodup, isChain_frame hlinked (fun a ha => ?_) fun a ha => ?_⟩
  · rw [List.dropLast_concat] at ha
    exact hnext a ha
  · have ha' : a ∈ t ++ [h] := ha
    rcases List.mem_append.mp ha' with ht | hh
    · exact hprev a (List.mem_cons_of_mem _ ht)
    · exact hprev a (List.mem_cons.mpr (.inl (List.mem_singleton.mp hh)))

/-- The others remain. -/
theorem Nodes.cut {l : List A} (hl : Nodes p (l ++ [n])) (hhead : l.head? = some h) :
    ∃ p', p.cut h n = some p' ∧ Nodes p' l := by
  obtain ⟨t, rfl⟩ : ∃ t, l = h :: t := by
    cases l with
    | nil => cases hhead
    | cons a t =>
      obtain rfl : a = h := Option.some.inj hhead
      exact ⟨t, rfl⟩
  have hnodup := hl.nodup
  have hn : n ∉ h :: t := fun hmem =>
    (List.nodup_append.mp hnodup).2.2 n hmem n List.mem_cons_self rfl
  obtain ⟨h', t', heq, hring⟩ := hl
  obtain ⟨rfl, rfl⟩ := List.cons.inj heq
  obtain ⟨p₁, hunlink, hring₁⟩ := @IsRing.unlink _ _ _ _ _ _ [] hring
  rw [List.append_nil] at hring₁
  -- the neighbours of the last node
  obtain ⟨front, a, hfront, -⟩ := exists_last h t []
  have hlinked : (h :: (t ++ [n]) ++ [h]).IsChain p.Adjacent := hring.linked
  have hwhole : h :: (t ++ [n]) ++ [h] = front ++ a :: n :: h :: [] := by
    have happend : h :: (t ++ [n]) ++ [h] = h :: t ++ [n, h] := by simp
    rw [happend, hfront]
    simp
  rw [hwhole] at hlinked
  obtain ⟨-, ⟨hnext_a, hprev_n⟩, hrest⟩ := List.isChain_append_cons_cons.mp hlinked
  have hnext_n := (List.isChain_cons_cons.mp hrest).1.1
  have hnh : n ≠ h := fun heq => hn (heq ▸ List.mem_cons_self)
  unfold Links.unlink at hunlink
  simp only [hprev_n, hnext_n, Option.bind_eq_bind, Option.bind_some, setNext_next,
    setNext_prev, ite_self, Option.pure_def, Option.some.injEq] at hunlink
  refine ⟨(p₁.setPrev n none).setNext n none, ?_, ?_⟩
  · unfold Links.cut
    simp only [hprev_n, setPrev_prev, hnh, if_false, Option.bind_eq_bind, Option.bind_some,
      Option.pure_def, Option.some.injEq]
    rw [← hunlink]
    rfl
  · refine Nodes.frame ⟨h, t, rfl, hring₁⟩ (fun x hx => ?_) fun x hx => ?_
    · have hxn : x ≠ n := fun heq => hn (heq ▸ hx)
      simp [hxn]
    · have hxn : x ≠ n := fun heq => hn (heq ▸ hx)
      simp [hxn]

/-! ## §4. Walks. -/

omit [DecidableEq A] in
/-- The pointers to the next nodes lead along the list. -/
theorem Nodes.next_of_split {l : List A} {a b : A} (hl : Nodes p l) (heq : l = pre ++ a :: b :: post) :
    p.next a = some b := by
  obtain ⟨h', t, rfl, hring⟩ := hl
  have hlinked := hring.linked
  rw [heq] at hlinked
  exact (List.isChain_append_cons_cons.mp (show (pre ++ a :: b :: (post ++ [h'])).IsChain
    p.Adjacent by simpa using hlinked)).2.1.1

omit [DecidableEq A] in
/-- There is always a next node. -/
theorem Nodes.next_isSome {l : List A} {a : A} (hl : Nodes p l) (ha : a ∈ l) :
    ∃ b, p.next a = some b := by
  obtain ⟨pre, post, rfl⟩ := List.append_of_mem ha
  cases post with
  | cons b post => exact ⟨b, hl.next_of_split rfl⟩
  | nil =>
    obtain ⟨h', t, heq, hring⟩ := hl
    have hlinked := hring.linked
    rw [← heq] at hlinked
    exact ⟨h', (List.isChain_append_cons_cons.mp (show (pre ++ a :: h' :: []).IsChain
      p.Adjacent by simpa using hlinked)).2.1.1⟩

end Links

end Ring
