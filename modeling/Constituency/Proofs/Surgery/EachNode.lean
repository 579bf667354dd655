import Constituency.Proofs.Surgery.Templates

/-!
# A change at each of several nodes

Some operations make one change at the node of every name that they are given, each in the tree that
the changes before have left. Names keep their nodes meanwhile, so that these are the nodes that the
names had at first, in the order of the names (`nodesOf`). What a change at one more node keeps up
holds after all of them (`forEach_nodes`). A name whose node the arena does not have is passed over,
as one without a node is.
-/

namespace Constituency.Surgery

open Constituency.Tree

variable {s : Surgery}

/-- The nodes of several names, in order. Names without a node are left out. -/
def nodesOf (s : Surgery) (names : List String) : List NodeId :=
  names.filterMap s.node?

/-- A name without a node of the arena hinders the step that begins with it. -/
theorem attempt_of_fetch_error (keyword : String) {name : String} {o : Obstacle}
    (h : s.fetch name = .error o) (rest : NodeId → Step Unit) :
    (s.attempt keyword (Step.fetch name >>= rest)).1 = s := by
  have hstep : Ends (Step.fetch name >>= rest) s (fun _ _ => False) fun _ u => u = s :=
    Step.ends_fetch_error h rfl
  rcases attempt_cases keyword hstep with ⟨_, _, hf⟩ | ⟨_, u, hattempt, hu⟩
  · exact hf.elim
  · rw [hattempt, hu]

variable {change : NodeId → Edit Unit} (holds : List NodeId → Tree → Prop)
  (hknown : ∀ {ids : List NodeId} {t : Tree} {id : NodeId}, holds ids t → id < t.nodes.size →
    Ends (change id) t (fun _ u => holds (ids ++ [id]) u) fun _ _ => False)
  (hunknown : ∀ {ids : List NodeId} {t : Tree} {id : NodeId}, holds ids t →
    ¬ id < t.nodes.size → holds (ids ++ [id]) t)

include hknown hunknown

theorem attempt_node (keyword name : String) {ids : List NodeId} (h : holds ids s.tree) :
    ∃ t, (s.attempt keyword (Step.fetch name >>= fun id => Step.edit (change id))).1 =
      { s with tree := t } ∧ holds (ids ++ s.nodesOf [name]) t := by
  rw [nodesOf, List.filterMap_cons, List.filterMap_nil]
  cases hid : s.node? name with
  | none =>
    have hfetch := fetch_eq_error_iff.mpr (.inl ⟨hid, rfl⟩)
    refine ⟨s.tree, attempt_of_fetch_error keyword hfetch _, ?_⟩
    rwa [List.append_nil]
  | some id =>
    by_cases hlt : id < s.tree.nodes.size
    · have hstep : Ends (Step.fetch name >>= fun id => Step.edit (change id)) s
          (fun _ u => ∃ t, u = { s with tree := t } ∧ holds (ids ++ [id]) t) fun _ _ => False :=
        Step.ends_fetch (fetch_eq_ok_iff.mpr ⟨hid, hlt⟩) (Step.ends_last_edit
          ((hknown h hlt).mono (fun _ t ht => ⟨t, rfl, ht⟩) fun _ _ hf => hf))
      obtain ⟨u, hattempt, t, hu, ht⟩ := attempt_of_ends keyword hstep
      exact ⟨t, by rw [hattempt, hu], ht⟩
    · have hfetch := fetch_eq_error_iff.mpr (.inr ⟨id, hid, hlt, rfl⟩)
      exact ⟨s.tree, attempt_of_fetch_error keyword hfetch _, hunknown h hlt⟩

/-- **What a change at one more node keeps up holds after the changes at all nodes**, and nothing
but the tree has changed. -/
theorem forEach_nodes (keyword : String) (names : List String) {ids : List NodeId}
    (h : holds ids s.tree) :
    ∃ t, (forEach keyword change names s).1 = { s with tree := t } ∧
      holds (ids ++ s.nodesOf names) t := by
  induction names generalizing s ids with
  | nil => exact ⟨s.tree, rfl, by rwa [nodesOf, List.filterMap_nil, List.append_nil]⟩
  | cons name names ih =>
    obtain ⟨t, hattempt, ht⟩ := attempt_node holds hknown hunknown keyword name h
    have hsplit : s.nodesOf (name :: names) = s.nodesOf [name] ++ s.nodesOf names :=
      List.filterMap_append (l := [name])
    obtain ⟨u, hu, hholds⟩ := ih (s := { s with tree := t }) ht
    rw [hsplit, ← List.append_assoc]
    refine ⟨u, ?_, hholds⟩
    show (forEach keyword change names (s.attempt keyword _).1).1 = _
    rw [hattempt]
    exact hu

end Constituency.Surgery
