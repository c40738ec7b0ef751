/-
  Shed — shedding load along a list of candidates.

  A total is brought down to a cap: the candidates are gone through in order,
  some are skipped, each other one is taken and its size comes off the total,
  until the total is at the cap.

  Main results:
    * `shed_sublist`, `shed_taken` — what is taken comes from the list, in its
      order, and was not to be skipped;
    * `shed_stop` — before each candidate taken the total was above the cap;
    * `shed_all` — if the total ends above the cap, nothing more can be taken;
    * `shed_first` — along an order, what is taken comes before what is left.
-/
import Mathlib

namespace Shed

variable {A : Type} (cap : Int) (size : A → Nat) (skip : A → Bool)

/-- What is taken from the list to bring the total down to the cap. -/
def shed : (total : Int) → List A → List A
  | _, [] => []
  | total, a :: rest =>
    if total ≤ cap then []
    else if skip a then shed total rest
    else a :: shed (total - size a) rest

theorem shed_sublist (l : List A) : ∀ total, (shed cap size skip total l).Sublist l := by
  induction l with
  | nil => intro total; exact List.Sublist.refl []
  | cons a rest ih =>
    intro total
    unfold shed
    split
    · exact List.nil_sublist _
    · split
      · exact (ih total).cons a
      · exact (ih _).cons_cons a

theorem shed_taken (l : List A) :
    ∀ total, ∀ a ∈ shed cap size skip total l, skip a = false := by
  induction l with
  | nil => intro total a ha; cases ha
  | cons b rest ih =>
    intro total a ha
    unfold shed at ha
    split at ha
    · cases ha
    · split at ha
      · exact ih total a ha
      · next hskip =>
        rcases List.mem_cons.mp ha with hab | ha
        · rw [hab]
          simpa using hskip
        · exact ih _ a ha

/-- The total before a candidate is taken is above the cap. -/
theorem shed_stop (l : List A) : ∀ (total : Int) (before after : List A) (a : A),
    shed cap size skip total l = before ++ a :: after →
      cap < total - ((before.map size).sum : Nat) := by
  induction l with
  | nil =>
    intro total before after a h
    simp [shed] at h
  | cons b rest ih =>
    intro total before after a h
    unfold shed at h
    split at h
    · simp at h
    · next hcap =>
      split at h
      · exact ih total before after a h
      · -- the candidate is the first that is taken, or the head is among those before it
        cases before with
        | nil =>
          show cap < total - ((0 : Nat) : Int)
          omega
        | cons c before =>
          obtain ⟨hbc, hrest⟩ := List.cons.inj h
          have hle := ih (total - size b) before after a hrest
          rw [List.map_cons, List.sum_cons, ← hbc]
          omega

/-- Where the total ends above the cap, everything that can be taken is. -/
theorem shed_all (l : List A) : ∀ total : Int,
    cap < total - (((shed cap size skip total l).map size).sum : Nat) →
      ∀ a ∈ l, skip a = false → a ∈ shed cap size skip total l := by
  induction l with
  | nil => intro total _ a ha; cases ha
  | cons b rest ih =>
    intro total h a ha hskip
    -- what is taken only lowers the total, so it is above the cap from the start
    have htotal : ¬ total ≤ cap := by omega
    unfold shed at h ⊢
    rw [if_neg htotal] at h ⊢
    by_cases hb : skip b = true
    · rw [if_pos hb] at h ⊢
      rcases List.mem_cons.mp ha with hab | ha
      · rw [hab, hb] at hskip
        cases hskip
      · exact ih total h a ha hskip
    · rw [if_neg hb] at h ⊢
      rw [List.map_cons, List.sum_cons] at h
      rcases List.mem_cons.mp ha with hab | ha
      · rw [hab]
        exact List.mem_cons_self
      · refine List.mem_cons_of_mem b (ih (total - size b) ?_ a ha hskip)
        omega

/-- Along an order, what is taken comes before what could have been. -/
theorem shed_first {R : A → A → Prop} (l : List A) (hl : l.Pairwise R) : ∀ (total : Int),
    ∀ v ∈ shed cap size skip total l, ∀ a ∈ l, skip a = false →
      a ∉ shed cap size skip total l → R v a := by
  induction l with
  | nil => intro total v hv; cases hv
  | cons b rest ih =>
    intro total v hv a ha hskip hleft
    obtain ⟨hb, hrest⟩ := List.pairwise_cons.mp hl
    unfold shed at hv hleft
    split at hv
    · cases hv
    · next hcap =>
      rw [if_neg hcap] at hleft
      split at hv
      · next hskipb =>
        rw [if_pos hskipb] at hleft
        rcases List.mem_cons.mp ha with hab | ha
        · rw [hab, hskipb] at hskip
          cases hskip
        · exact ih hrest total v hv a ha hskip hleft
      · next hskipb =>
        rw [if_neg hskipb, List.mem_cons, not_or] at hleft
        -- what was left is not the head, which was taken
        have ha' : a ∈ rest := (List.mem_cons.mp ha).resolve_left hleft.1
        rcases List.mem_cons.mp hv with hvb | hv
        · rw [hvb]
          exact hb a ha'
        · exact ih hrest _ v hv a ha' hskip hleft.2

end Shed
