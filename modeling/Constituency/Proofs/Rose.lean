import Constituency.Rose

/-!
# Rose trees: sizes, pre-order, addresses

What several trees have in common with lists is said once here: the size, the pre-order and the
image of several trees are those of the trees taken together.

A node is found by its address, a list of child indices from the root on (`at?`), or by its number
in pre-order (`numbered`). Neither depends on the values, so that both stay when the values are
replaced.
-/

namespace Constituency.Rose

variable {α β γ : Type}

theorem preorderAll_eq_flatMap (rs : List (Rose α)) : preorderAll rs = rs.flatMap preorder := by
  induction rs with
  | nil => rfl
  | cons r rs ih => rw [preorderAll, ih, List.flatMap_cons]

/-! ## Sizes -/

theorem size_pos : ∀ r : Rose α, 0 < r.size
  | .node _ _ => Nat.succ_pos _

theorem sizeAll_append (rs ss : List (Rose α)) : sizeAll (rs ++ ss) = sizeAll rs + sizeAll ss := by
  induction rs with
  | nil => rw [List.nil_append, sizeAll, Nat.zero_add]
  | cons r rs ih => rw [List.cons_append, sizeAll, sizeAll, ih, Nat.add_assoc]

theorem sizeAll_reverse (rs : List (Rose α)) : sizeAll rs.reverse = sizeAll rs := by
  induction rs with
  | nil => rfl
  | cons r rs ih =>
    rw [List.reverse_cons, sizeAll_append, ih, sizeAll, sizeAll, sizeAll, Nat.add_zero,
      Nat.add_comm]

mutual

theorem length_preorder : ∀ r : Rose α, r.preorder.length = r.size
  | .node a cs => by rw [preorder, List.length_cons, length_preorderAll, size]

theorem length_preorderAll : ∀ rs : List (Rose α), (preorderAll rs).length = sizeAll rs
  | [] => rfl
  | r :: rs => by
    rw [preorderAll, List.length_append, length_preorder, length_preorderAll, sizeAll]

end

/-! ## Other values -/

theorem mapAll_eq_map (f : α → β) (rs : List (Rose α)) : mapAll f rs = rs.map (map f) := by
  induction rs with
  | nil => rfl
  | cons r rs ih => rw [mapAll, ih, List.map_cons]

theorem value_map (f : α → β) (r : Rose α) : (r.map f).value = f r.value := by
  obtain ⟨a, rs⟩ := r
  rfl

mutual

theorem size_map (f : α → β) : ∀ r : Rose α, (r.map f).size = r.size
  | .node a cs => by rw [map, size, size, sizeAll_mapAll]

theorem sizeAll_mapAll (f : α → β) : ∀ rs : List (Rose α), sizeAll (mapAll f rs) = sizeAll rs
  | [] => rfl
  | r :: rs => by rw [mapAll, sizeAll, sizeAll, size_map, sizeAll_mapAll]

end

mutual

theorem preorder_map (f : α → β) : ∀ r : Rose α, (r.map f).preorder = r.preorder.map f
  | .node a rs => by rw [map, preorder, preorder, preorderAll_mapAll, List.map_cons]

theorem preorderAll_mapAll (f : α → β) : ∀ rs : List (Rose α),
    preorderAll (mapAll f rs) = (preorderAll rs).map f
  | [] => rfl
  | r :: rs => by
    rw [mapAll, preorderAll, preorderAll, preorder_map, preorderAll_mapAll, List.map_append]

end

mutual

theorem map_map (g : β → γ) (f : α → β) : ∀ r : Rose α, (r.map f).map g = r.map (g ∘ f)
  | .node a rs => by rw [map, map, map, mapAll_mapAll]; rfl

theorem mapAll_mapAll (g : β → γ) (f : α → β) : ∀ rs : List (Rose α),
    mapAll g (mapAll f rs) = mapAll (g ∘ f) rs
  | [] => rfl
  | r :: rs => by rw [mapAll, mapAll, mapAll, map_map, mapAll_mapAll]

end

mutual

theorem map_id : ∀ r : Rose α, r.map id = r
  | .node a rs => by rw [map, mapAll_id]; rfl

theorem mapAll_id : ∀ rs : List (Rose α), mapAll id rs = rs
  | [] => rfl
  | r :: rs => by rw [mapAll, map_id, mapAll_id]

end

/-! ## Addresses -/

/-- The subtree at an address, a list of child indices from the root on. -/
def at? (r : Rose α) : List Nat → Option (Rose α)
  | [] => some r
  | i :: is => r.children[i]?.bind fun c => c.at? is

theorem at?_map (f : α → β) (r : Rose α) (is : List Nat) :
    (r.map f).at? is = (r.at? is).map (map f) := by
  induction is generalizing r with
  | nil => rfl
  | cons i is ih =>
    obtain ⟨a, cs⟩ := r
    rw [map, at?, at?, children, children, mapAll_eq_map, List.getElem?_map]
    cases cs[i]? with
    | none => rfl
    | some c => exact ih c

theorem value_mem_preorder (r : Rose α) : r.value ∈ r.preorder := by
  obtain ⟨a, cs⟩ := r
  exact List.mem_cons_self ..

/-- What stands at an address occurs in the pre-order. -/
theorem mem_preorder_of_at? {r d : Rose α} {is : List Nat} (h : r.at? is = some d) :
    d.value ∈ r.preorder := by
  induction is generalizing r with
  | nil =>
    obtain rfl := Option.some.inj h
    exact value_mem_preorder r
  | cons i is ih =>
    obtain ⟨a, cs⟩ := r
    obtain ⟨c, hc, hd⟩ := Option.bind_eq_some_iff.mp h
    rw [preorder, preorderAll_eq_flatMap]
    exact List.mem_cons_of_mem a (List.mem_flatMap.mpr ⟨c, List.mem_of_getElem? hc, ih hd⟩)

/-! ## Numbers in pre-order -/

mutual

/-- A tree with its nodes numbered in pre-order from a number on. -/
def numbered (base : Nat) : Rose α → Rose (α × Nat)
  | .node a cs => .node (a, base) (numberedAll (base + 1) cs)

/-- Several trees, numbered one after the other. -/
def numberedAll (base : Nat) : List (Rose α) → List (Rose (α × Nat))
  | [] => []
  | r :: rs => r.numbered base :: numberedAll (base + r.size) rs

end

mutual

theorem map_fst_numbered (base : Nat) : ∀ r : Rose α, (r.numbered base).map Prod.fst = r
  | .node a cs => by rw [numbered, map, mapAll_fst_numberedAll]

theorem mapAll_fst_numberedAll (base : Nat) : ∀ rs : List (Rose α),
    mapAll Prod.fst (numberedAll base rs) = rs
  | [] => rfl
  | r :: rs => by rw [numberedAll, mapAll, map_fst_numbered, mapAll_fst_numberedAll]

end

mutual

theorem preorder_numbered (base : Nat) : ∀ r : Rose α,
    (r.numbered base).preorder = r.preorder.zipIdx base
  | .node a cs => by
    rw [numbered, preorder, preorder, List.zipIdx_cons, preorderAll_numberedAll]

theorem preorderAll_numberedAll (base : Nat) : ∀ rs : List (Rose α),
    preorderAll (numberedAll base rs) = (preorderAll rs).zipIdx base
  | [] => rfl
  | r :: rs => by
    rw [numberedAll, preorderAll, preorderAll, List.zipIdx_append, preorder_numbered,
      preorderAll_numberedAll, length_preorder]

end

mutual

theorem numbered_map (f : α → β) (base : Nat) : ∀ r : Rose α,
    (r.map f).numbered base = (r.numbered base).map (Prod.map f id)
  | .node a cs => by rw [map, numbered, numbered, map, numberedAll_mapAll]; rfl

theorem numberedAll_mapAll (f : α → β) (base : Nat) : ∀ rs : List (Rose α),
    numberedAll base (mapAll f rs) = mapAll (Prod.map f id) (numberedAll base rs)
  | [] => rfl
  | r :: rs => by
    rw [mapAll, numberedAll, numberedAll, mapAll, numbered_map, numberedAll_mapAll, size_map]

end

end Constituency.Rose
