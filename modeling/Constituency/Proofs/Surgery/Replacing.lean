import Constituency.Proofs.Surgery.Edit
import Constituency.Proofs.Tree.Rearranging

/-!
# Putting loose nodes in the place of another

`putInPlace` comes to one thing in all lists of children alike: `old` is replaced by the new nodes
(`inPlaceOf`). The list of its parent is the only one that has it, and if the root is replaced it is
in none. So whether `old` was the root or a child matters nowhere but here.
-/

namespace Constituency

open Constituency.Tree

/-- A list with other nodes in the place of one. -/
def inPlaceOf (old : NodeId) (nodes cs : List NodeId) : List NodeId :=
  cs.flatMap fun c => if c = old then nodes else [c]

section inPlaceOf

variable {old new c : NodeId} {nodes cs before after : List NodeId}

@[simp] theorem inPlaceOf_cons (old c : NodeId) (nodes cs : List NodeId) :
    inPlaceOf old nodes (c :: cs) = (if c = old then nodes else [c]) ++ inPlaceOf old nodes cs :=
  List.flatMap_cons ..

@[simp] theorem inPlaceOf_append (old : NodeId) (nodes before after : List NodeId) :
    inPlaceOf old nodes (before ++ after) =
      inPlaceOf old nodes before ++ inPlaceOf old nodes after :=
  List.flatMap_append ..

theorem inPlaceOf_of_notMem (h : old ∉ cs) : inPlaceOf old nodes cs = cs := by
  induction cs with
  | nil => rfl
  | cons c cs ih =>
    rw [List.mem_cons, not_or] at h
    rw [inPlaceOf_cons, if_neg (Ne.symm h.1), ih h.2, List.singleton_append]

theorem inPlaceOf_middle (hbefore : old ∉ before) (hafter : old ∉ after) :
    inPlaceOf old nodes (before ++ old :: after) = before ++ nodes ++ after := by
  rw [inPlaceOf_append, inPlaceOf_cons, if_pos rfl, inPlaceOf_of_notMem hbefore,
    inPlaceOf_of_notMem hafter, List.append_assoc]

theorem mem_inPlaceOf :
    c ∈ inPlaceOf old nodes cs ↔ (c ∈ cs ∧ c ≠ old) ∨ (old ∈ cs ∧ c ∈ nodes) := by
  rw [inPlaceOf, List.mem_flatMap]
  constructor
  · rintro ⟨x, hx, hc⟩
    by_cases hxo : x = old
    · rw [if_pos hxo] at hc
      exact .inr ⟨hxo ▸ hx, hc⟩
    · rw [if_neg hxo, List.mem_singleton] at hc
      exact .inl ⟨hc ▸ hx, hc ▸ hxo⟩
  · rintro (⟨hc, hne⟩ | ⟨hold, hc⟩)
    · exact ⟨c, hc, by rw [if_neg hne]; exact List.mem_singleton_self c⟩
    · exact ⟨old, hold, by rw [if_pos rfl]; exact hc⟩

/-- What has been replaced by a new node can be put back. -/
theorem inPlaceOf_inPlaceOf (h : new ∉ cs) :
    inPlaceOf new nodes (inPlaceOf old [new] cs) = inPlaceOf old nodes cs := by
  induction cs with
  | nil => rfl
  | cons c cs ih =>
    rw [List.mem_cons, not_or] at h
    rw [inPlaceOf_cons, inPlaceOf_append, ih h.2, inPlaceOf_cons]
    by_cases hc : c = old
    · rw [if_pos hc, if_pos hc, inPlaceOf_cons, if_pos rfl, inPlaceOf, List.flatMap_nil,
        List.append_nil]
    · rw [if_neg hc, if_neg hc, inPlaceOf_of_notMem (by simpa using h.1)]

@[simp] theorem inPlaceOf_self (old : NodeId) (cs : List NodeId) : inPlaceOf old [old] cs = cs := by
  induction cs with
  | nil => rfl
  | cons c cs ih =>
    rw [inPlaceOf_cons, ih]
    by_cases hc : c = old
    · rw [if_pos hc, hc, List.singleton_append]
    · rw [if_neg hc, List.singleton_append]

end inPlaceOf

namespace Tree

variable {t : Tree} {old p : NodeId} {nodes span before after : List NodeId}

/-- A child stands between its sisters. -/
theorem children_around {i : Nat} (hp : t.parent old = some p)
    (hi : t.childIndex old = some i) :
    t.children p = (t.children p).take i ++ [old] ++ (t.children p).drop (i + 1) := by
  rw [childIndex, hp, Option.bind_some] at hi
  obtain ⟨hlt, hget, _⟩ := List.idxOf?_eq_some_iff.mp hi
  rw [List.append_assoc, List.singleton_append, ← hget, ← List.drop_eq_getElem_cons hlt,
    List.take_append_drop]

namespace WellFormed

/-- Loose nodes can take the place of some of the children of an attached node. -/
theorem ready_around (h : t.WellFormed) (hp : t.isAttached p = true)
    (hsplit : t.children p = before ++ span ++ after) (hnodup : nodes.Nodup)
    (hloose : ∀ n ∈ nodes, t.Loose n) : (before ++ nodes ++ after).Nodup ∧
      ∀ c ∈ before ++ nodes ++ after, c ∈ t.children p ∨ t.Ready p c := by
  have hstay : ∀ c ∈ before ++ after, c ∈ t.children p := by
    intro c hc
    rw [hsplit, List.mem_append, List.mem_append]
    exact (List.mem_append.mp hc).imp_left .inl
  have hothers : (before ++ after).Nodup := by
    refine (hsplit ▸ h.children_nodup p).sublist ?_
    exact List.Sublist.append_right (List.sublist_append_left before span) after
  -- the new nodes have no place, so that none of them is among the children that stay
  have hnew : ∀ n ∈ nodes, n ∉ before ++ after := by
    intro n hn hmem
    exact h.parent_eq_none_iff.mp (hloose n hn).free p (hstay n hmem)
  refine ⟨?_, fun c hc => ?_⟩
  · have hperm : (before ++ nodes ++ after).Perm (before ++ after ++ nodes) := by
      rw [List.append_assoc, List.append_assoc]
      exact List.perm_append_comm.append_left before
    rw [hperm.nodup_iff, List.nodup_append]
    exact ⟨hothers, hnodup, fun c hc n hn hcn => hnew n hn (hcn ▸ hc)⟩
  · rw [List.mem_append, List.mem_append] at hc
    rcases hc with (hc | hc) | hc
    · exact .inl (hstay c (List.mem_append_left _ hc))
    · exact .inr (h.ready_of_isAttached hp (hloose c hc))
    · exact .inl (hstay c (List.mem_append_right _ hc))

/-- Only one list has a node, and only once. -/
theorem inPlaceOf_children (h : t.WellFormed) (hp : t.parent old = some p)
    (hsplit : t.children p = before ++ [old] ++ after) (nodes : List NodeId) (q : NodeId) :
    inPlaceOf old nodes (t.children q) =
      Function.update t.children p (before ++ nodes ++ after) q := by
  have hnodup := h.children_nodup p
  rw [hsplit, List.append_assoc, List.singleton_append, List.nodup_middle, List.nodup_cons,
    List.mem_append, not_or] at hnodup
  rw [Function.update_apply]
  by_cases hq : q = p
  · rw [if_pos hq, hq, hsplit, List.append_assoc, List.singleton_append,
      inPlaceOf_middle hnodup.1.1 hnodup.1.2]
  · rw [if_neg hq, inPlaceOf_of_notMem fun hmem => hq ?_]
    exact Option.some.inj (((h.mem_children_iff q old).mp hmem).symm.trans hp)

end WellFormed

end Tree

namespace Edit

variable {t : Tree} {old id : NodeId} {nodes cs : List NodeId} {done : Unit → Tree → Prop}
  {failed : Refusal → Tree → Prop}

/-- Replacing the children of a node by its children and nodes that can move below it. -/
theorem ends_replaceChildren_rearranged (h : t.WellFormed) (hid : id < t.nodes.size)
    (hnodup : cs.Nodup) (hcs : ∀ c ∈ cs, c ∈ t.children id ∨ t.Ready id c)
    (hdone : ∀ u, u = (t.replaceChildren id cs).1 →
      Rearranged t u t.root (Function.update t.children id cs) → done () u) :
    Ends (replaceChildren id cs) t done failed := by
  have hknown : ∀ c ∈ cs, c < t.nodes.size := by
    intro c hc
    rcases hcs c hc with hc | hc
    · exact h.child_lt_size hc
    · exact hc.known
  exact ends_replaceChildren hid hknown
    (hdone _ rfl (h.rearranged_replaceChildren hid hnodup hcs))

/-- **Putting loose nodes in the place of an attached node.** -/
theorem ends_putInPlace_rearranged (h : t.WellFormed) (hold : t.isAttached old = true)
    (hnodup : nodes.Nodup) (hloose : ∀ n ∈ nodes, t.Loose n)
    (hsingle : t.root = some old → nodes.length = 1)
    (hdone : ∀ u, Rearranged t u (if t.root = some old then nodes.head? else t.root)
        (fun q => inPlaceOf old nodes (t.children q)) →
      (∀ n ∈ nodes, u.isAttached n = true) → done () u) :
    Ends (putInPlace old nodes) t done failed := by
  refine Ends.get_bind ?_
  cases hp : t.parent old with
  | some p =>
    obtain ⟨i, hi⟩ := Option.isSome_iff_exists.mp (h.childIndex_isSome hp)
    have hsplit := children_around hp hi
    have hpattached : t.isAttached p = true := by rwa [← h.isAttached_of_parent hp]
    have hpknown := h.lt_size_of_isAttached hpattached
    obtain ⟨hall, hready⟩ := h.ready_around hpattached hsplit hnodup hloose
    rw [hi]
    refine ends_replaceChildren_rearranged h hpknown hall hready fun u hu hr => ?_
    have hroot : t.root ≠ some old := fun hr => by
      rw [h.root_top old hr] at hp
      exact absurd hp (by simp)
    refine hdone u (hr.of_eq (if_neg hroot).symm fun q => ?_) fun n hn => ?_
    · rw [h.inPlaceOf_children hp hsplit]
    · have hlink : u.parent n = some p := by
        rw [← hr.mem_children_iff, Function.update_self]
        exact List.mem_append_left _ (List.mem_append_right _ hn)
      rw [hr.wellFormed.isAttached_of_parent hlink, hu,
        (h.above_replaceChildren hpknown hall hready .refl).1, hpattached]
  | none =>
    have hroot : t.root = some old := h.root_of_parent_none hold hp
    obtain ⟨n, rfl⟩ := List.length_eq_one_iff.mp (hsingle hroot)
    have hn := hloose n (List.mem_singleton_self n)
    have hr := h.rearranged_setRoot hn.known hn.free
    dsimp only
    rw [isRoot, hroot, beq_self_eq_true, Bool.not_true, if_neg Bool.false_ne_true]
    refine ends_perform (r := .setRoot (some n)) (contains_eq_true.mpr hn.known) (hdone _ ?_ ?_)
    · refine hr.of_eq (if_pos hroot).symm fun q => ?_
      rw [inPlaceOf_of_notMem (h.parent_eq_none_iff.mp hp q)]
    · intro m hm
      obtain rfl := List.mem_singleton.mp hm
      exact hr.wellFormed.isAttached_iff.mpr ⟨m, hr.root, .refl⟩

end Edit

end Constituency
