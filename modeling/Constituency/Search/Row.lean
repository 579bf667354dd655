/-!
# Rows that shrink

A backtracking search keeps a row of branches, the one at hand first. One move puts any number of
smaller branches in the place of the first one, and may drop some of those behind it. The row can
get longer with every move, but never for ever: this is the order by which searches end.
-/

namespace Constituency

/-- The sizes of branches, from the one at hand to the one that would be tried last. -/
structure Row where
  sizes : List Nat

namespace Row

/-- One move of a search: sizes smaller than the first have taken its place, and some of those next
to it may be gone too. -/
inductive Shrinks : List Nat → List Nat → Prop where
  | move {n : Nat} {ms rest : List Nat} (dropped : List Nat) :
    (∀ m ∈ ms, m < n) → Shrinks (ms ++ rest) (n :: (dropped ++ rest))

/-- Going back drops the first branch. -/
theorem shrinks_tail (n : Nat) (rest : List Nat) : Shrinks rest (n :: rest) := by
  have h : Shrinks ([] ++ rest) (n :: ([] ++ rest)) := .move [] (by simp)
  exact h

theorem shrinks_nil (n : Nat) (rest : List Nat) : Shrinks [] (n :: rest) := by
  have h : Shrinks ([] ++ []) (n :: (rest ++ [])) := .move rest (by simp)
  rwa [List.append_nil, List.append_nil] at h

/-- A trial starts a row of its own. -/
theorem shrinks_singleton {m n : Nat} (rest : List Nat) (h : m < n) : Shrinks [m] (n :: rest) := by
  have hm : Shrinks ([m] ++ []) (n :: (rest ++ [])) := .move rest (by simpa using h)
  rwa [List.append_nil, List.append_nil] at hm

/-- A row begins a finite search if every row at its end does so, whatever its first number. -/
theorem acc_cons (n : Nat) : ∀ (rest : List Nat),
    (∀ front back, rest = front ++ back → Acc Shrinks back) → Acc Shrinks (n :: rest) := by
  induction n using Nat.strongRecOn with
  | ind n ih =>
    intro rest hrest
    refine ⟨_, fun _ h => ?_⟩
    cases h with
    | @move _ ms back dropped hms =>
      -- the new numbers are added one by one in front of what is left of the row
      have hback : ∀ ms : List Nat, (∀ m ∈ ms, m < n) →
          ∀ front tail, ms ++ back = front ++ tail → Acc Shrinks tail := by
        intro ms
        induction ms with
        | nil =>
          intro _ front tail h
          exact hrest (dropped ++ front) tail (by rw [List.append_assoc, ← h, List.nil_append])
        | cons m ms ihm =>
          intro hlt front tail h
          have hms := ihm fun k hk => hlt k (List.mem_cons_of_mem m hk)
          cases front with
          | nil =>
            rw [List.nil_append] at h
            rw [← h]
            exact ih m (hlt m (List.mem_cons_self ..)) (ms ++ back) hms
          | cons x front =>
            exact hms front tail (List.cons.inj h).2
      exact hback ms hms [] _ rfl

theorem acc_of_append : ∀ (row front back : List Nat), row = front ++ back → Acc Shrinks back := by
  intro row
  induction row with
  | nil =>
    intro front back h
    obtain ⟨_, rfl⟩ := List.append_eq_nil_iff.mp h.symm
    exact ⟨_, fun _ h => nomatch h⟩
  | cons n row ih =>
    intro front back h
    cases front with
    | nil =>
      rw [List.nil_append] at h
      rw [← h]
      exact acc_cons n row ih
    | cons x front => exact ih front back (List.cons.inj h).2

/-- **No row can shrink for ever.** -/
theorem wellFounded_shrinks : WellFounded Shrinks :=
  ⟨fun row => acc_of_append row [] row rfl⟩

instance : WellFoundedRelation Row where
  rel a b := Relation.TransGen Shrinks a.sizes b.sizes
  wf := InvImage.wf sizes wellFounded_shrinks.transGen

end Row

end Constituency
