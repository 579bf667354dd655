import Constituency.Tree.Edit

/-!
# What the small edits do to labels and links

Every edit of a tree is put together from four: a label, a parent link or a list
of children is changed at one node, or nodes are added at the end of the arena.
Each is described here by what `label`, `parent` and `children` read afterwards,
so that nothing else needs to look into the array.
-/

namespace Constituency.Tree

section read

variable {α : Type} {ns : Array Node} {id n : NodeId} {d v : α} {f : Node → Node} {g : Node → α}

/-- A change of one node that `g` does not see. -/
theorem elim_modify_of_eq (h : ∀ x, g (f x) = g x) :
    (ns.modify id f)[n]?.elim d g = ns[n]?.elim d g := by
  rw [Array.getElem?_modify]
  split
  · cases ns[n]? with
    | none => rfl
    | some x => exact h x
  · rfl

/-- A change of one node to a known value of `g`. -/
theorem elim_modify_of_const (h : ∀ x, g (f x) = v) :
    (ns.modify id f)[n]?.elim d g = if id = n ∧ n < ns.size then v else ns[n]?.elim d g := by
  rw [Array.getElem?_modify]
  by_cases hid : id = n
  · subst hid
    by_cases hn : id < ns.size
    · simp [hn, h]
    · simp [hn]
  · simp [hid]

end read

theorem eq_of_fields : ∀ {t u : Tree}, t.nodes = u.nodes → t.root = u.root →
    t.revision = u.revision → t = u
  | ⟨_, _, _⟩, ⟨_, _, _⟩, rfl, rfl, rfl => rfl

variable {t : Tree} {id n : NodeId}

theorem label_eq : t.label n = t.nodes[n]?.elim "" Node.label := by
  unfold label; cases t.nodes[n]? <;> rfl

theorem parent_eq : t.parent n = t.nodes[n]?.elim none Node.parent := by
  unfold parent; cases t.nodes[n]? <;> rfl

theorem children_eq : t.children n = t.nodes[n]?.elim [] Node.children := by
  unfold children; cases t.nodes[n]? <;> rfl

@[simp] theorem contains_eq_true : (t.contains n = true) ↔ n < t.nodes.size := by
  simp [contains]

theorem parent_of_not_contains (h : ¬ n < t.nodes.size) : t.parent n = none := by
  simp [parent, Array.getElem?_eq_none (Nat.not_lt.mp h)]

theorem children_of_not_contains (h : ¬ n < t.nodes.size) : t.children n = [] := by
  simp [children, Array.getElem?_eq_none (Nat.not_lt.mp h)]

/-- A node with a parent is in the arena. -/
theorem lt_size_of_parent {p : NodeId} (h : t.parent n = some p) : n < t.nodes.size := by
  by_cases hn : n < t.nodes.size
  · exact hn
  · rw [parent_of_not_contains hn] at h
    exact absurd h (by simp)

/-- A node with children is in the arena. -/
theorem lt_size_of_mem_children {c : NodeId} (h : c ∈ t.children n) : n < t.nodes.size := by
  by_cases hn : n < t.nodes.size
  · exact hn
  · rw [children_of_not_contains hn] at h
    exact absurd h (by simp)

/-! ## Changing one node -/

section modify

variable (t : Tree) (id n : NodeId)

@[simp] theorem size_setLabel (l : Label) : (t.setLabel id l).nodes.size = t.nodes.size := by
  simp [setLabel]

@[simp] theorem root_setLabel (l : Label) : (t.setLabel id l).root = t.root := rfl

@[simp] theorem revision_setLabel (l : Label) : (t.setLabel id l).revision = t.revision := rfl

@[simp] theorem parent_setLabel (l : Label) : (t.setLabel id l).parent n = t.parent n := by
  rw [parent_eq, parent_eq]
  exact elim_modify_of_eq fun _ => rfl

@[simp] theorem children_setLabel (l : Label) : (t.setLabel id l).children n = t.children n := by
  rw [children_eq, children_eq]
  exact elim_modify_of_eq fun _ => rfl

theorem label_setLabel (l : Label) :
    (t.setLabel id l).label n = if id = n ∧ n < t.nodes.size then l else t.label n := by
  rw [label_eq, label_eq]
  exact elim_modify_of_const fun _ => rfl

@[simp] theorem size_setParent (p : Option NodeId) :
    (t.setParent id p).nodes.size = t.nodes.size := by
  simp [setParent]

@[simp] theorem root_setParent (p : Option NodeId) : (t.setParent id p).root = t.root := rfl

@[simp] theorem revision_setParent (p : Option NodeId) :
    (t.setParent id p).revision = t.revision := rfl

theorem parent_setParent (p : Option NodeId) :
    (t.setParent id p).parent n = if id = n ∧ n < t.nodes.size then p else t.parent n := by
  rw [parent_eq, parent_eq]
  exact elim_modify_of_const fun _ => rfl

@[simp] theorem children_setParent (p : Option NodeId) :
    (t.setParent id p).children n = t.children n := by
  rw [children_eq, children_eq]
  exact elim_modify_of_eq fun _ => rfl

@[simp] theorem label_setParent (p : Option NodeId) :
    (t.setParent id p).label n = t.label n := by
  rw [label_eq, label_eq]
  exact elim_modify_of_eq fun _ => rfl

@[simp] theorem size_setChildren (cs : List NodeId) :
    (t.setChildren id cs).nodes.size = t.nodes.size := by
  simp [setChildren]

@[simp] theorem root_setChildren (cs : List NodeId) : (t.setChildren id cs).root = t.root := rfl

@[simp] theorem revision_setChildren (cs : List NodeId) :
    (t.setChildren id cs).revision = t.revision := rfl

@[simp] theorem parent_setChildren (cs : List NodeId) :
    (t.setChildren id cs).parent n = t.parent n := by
  rw [parent_eq, parent_eq]
  exact elim_modify_of_eq fun _ => rfl

theorem children_setChildren (cs : List NodeId) :
    (t.setChildren id cs).children n = if id = n ∧ n < t.nodes.size then cs else t.children n := by
  rw [children_eq, children_eq]
  exact elim_modify_of_const fun _ => rfl

@[simp] theorem label_setChildren (cs : List NodeId) :
    (t.setChildren id cs).label n = t.label n := by
  rw [label_eq, label_eq]
  exact elim_modify_of_eq fun _ => rfl

end modify

/-! ## Counting a change -/

section touch

variable (t : Tree) (id n : NodeId)

@[simp] theorem nodes_touch : (t.touch id).nodes = t.nodes := by
  unfold touch; split <;> rfl

@[simp] theorem root_touch : (t.touch id).root = t.root := by
  unfold touch; split <;> rfl

@[simp] theorem parent_touch : (t.touch id).parent n = t.parent n := by
  simp [parent]

@[simp] theorem children_touch : (t.touch id).children n = t.children n := by
  simp [children]

@[simp] theorem label_touch : (t.touch id).label n = t.label n := by
  simp [label]

end touch

/-! ## Adding nodes -/

section graft

variable (t : Tree) (c : Constituent)

@[simp] theorem root_graft : (t.graft c).1.root = t.root := rfl

@[simp] theorem revision_graft : (t.graft c).1.revision = t.revision := rfl

@[simp] theorem snd_graft : (t.graft c).2 = t.nodes.size := rfl

theorem getElem?_graft (h : n < t.nodes.size) : (t.graft c).1.nodes[n]? = t.nodes[n]? := by
  simp only [graft, Array.getElem?_append, if_pos h]

theorem parent_graft (h : n < t.nodes.size) : (t.graft c).1.parent n = t.parent n := by
  simp only [parent, getElem?_graft t c h]

theorem children_graft (h : n < t.nodes.size) : (t.graft c).1.children n = t.children n := by
  simp only [children, getElem?_graft t c h]

theorem label_graft (h : n < t.nodes.size) : (t.graft c).1.label n = t.label n := by
  simp only [label, getElem?_graft t c h]

end graft

end Constituency.Tree
