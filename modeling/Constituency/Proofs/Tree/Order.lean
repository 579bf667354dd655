import Constituency.Proofs.Tree.Revision
import Constituency.Tree.Index

/-!
# What an index records

An index records the order of the attached nodes: their places in it and the leaves that they cover.
Here it is shown that nothing else of a tree goes into it. If the attached nodes of two trees
correspond, in order and with their children, then corresponding nodes have the same place and the
same span, whatever numbers they have and whatever else is in the arenas.

Both tables are filled by going through the attached nodes one after the other. What is kept is that
two tables, one for each tree, agree at corresponding numbers (`AgreeAlong`): to write the same at
corresponding nodes keeps it, and a span is read off the spans of the children.
-/

namespace Constituency

/-- The attached nodes of the second tree are those of the first, renumbered by `f`. -/
structure Tree.AttachedAlong (f : NodeId → NodeId) (t u : Tree) : Prop where
  attached : u.attached = t.attached.map f
  children : ∀ n ∈ t.attached, u.children (f n) = (t.children n).map f

theorem Tree.SameAttached.along {t u : Tree} (h : SameAttached t u) : AttachedAlong id t u :=
  ⟨by rw [h.attached, List.map_id], fun n hn => by rw [List.map_id]; exact h.children n hn⟩

namespace Index

variable {α : Type} {f : NodeId → NodeId} {ids : List NodeId} {a b : Array (Option α)}

/-- Two tables with the same entries for corresponding numbers, both with room for those of given
nodes. -/
structure AgreeAlong (f : NodeId → NodeId) (ids : List NodeId) (a b : Array (Option α)) : Prop where
  entry : ∀ n, b[f n]?.join = a[n]?.join
  room : ∀ n ∈ ids, n < a.size ∧ f n < b.size

theorem agree_replicate {k l : Nat} (hroom : ∀ n ∈ ids, n < k ∧ f n < l) :
    AgreeAlong f ids (Array.replicate k (none : Option α)) (Array.replicate l none) := by
  have hnone : ∀ k n : Nat, (Array.replicate k (none : Option α))[n]?.join = none := by
    intro k n
    rw [Array.getElem?_replicate]
    split <;> rfl
  refine ⟨fun n => by rw [hnone, hnone], ?_⟩
  simpa using hroom

/-- The same entry for corresponding nodes. -/
theorem AgreeAlong.set (h : AgreeAlong f ids a b) (hf : Function.Injective f) {n : NodeId}
    (hn : n ∈ ids) (x : α) :
    AgreeAlong f ids (a.setIfInBounds n (some x)) (b.setIfInBounds (f n) (some x)) := by
  refine ⟨?_, by simpa using h.room⟩
  intro m
  obtain ⟨ha, hb⟩ := h.room n hn
  by_cases hm : n = m
  · subst hm
    rw [Array.getElem?_setIfInBounds_self_of_lt ha, Array.getElem?_setIfInBounds_self_of_lt hb]
  · rw [Array.getElem?_setIfInBounds_ne hm, Array.getElem?_setIfInBounds_ne (hf.ne hm)]
    exact h.entry m

/-- Numbering corresponding nodes in order. -/
theorem AgreeAlong.enumerate (hf : Function.Injective f) (value : Nat → α) :
    ∀ {part : List NodeId} {k : Nat} {a b : Array (Option α)}, AgreeAlong f ids a b →
      (∀ n ∈ part, n ∈ ids) →
      AgreeAlong f ids
        ((part.zipIdx k).foldl (fun xs (n, k) => xs.setIfInBounds n (some (value k))) a)
        (((part.map f).zipIdx k).foldl
          (fun xs (n, k) => xs.setIfInBounds n (some (value k))) b)
  | [], _, _, _, h, _ => h
  | n :: ns, k, a, b, h, hsub => by
    rw [List.map_cons, List.zipIdx_cons, List.zipIdx_cons, List.foldl_cons, List.foldl_cons]
    exact .enumerate hf value (h.set hf (hsub n (List.mem_cons_self ..)) (value k))
      fun m hm => hsub m (List.mem_cons_of_mem n hm)

variable {t u : Tree}

/-- A node covers what its first and its last child cover. -/
theorem AgreeAlong.cover {a b : Array (Option Span)} (h : AgreeAlong f ids a b)
    (hf : Function.Injective f) {n : NodeId} (hn : n ∈ ids)
    (hchildren : u.children (f n) = (t.children n).map f) :
    AgreeAlong f ids (cover t a n) (cover u b (f n)) := by
  unfold Index.cover
  rw [hchildren, List.head?_map, List.getLast?_map]
  cases (t.children n).head? with
  | none => exact h
  | some x =>
    cases (t.children n).getLast? with
    | none => exact h
    | some y =>
      dsimp only [Option.map_some]
      rw [h.entry x, h.entry y]
      cases a[x]?.join with
      | none => exact h
      | some first =>
        cases a[y]?.join with
        | none => exact h
        | some last => exact h.set hf hn _

theorem AgreeAlong.coverAll (hf : Function.Injective f) :
    ∀ {part : List NodeId} {a b : Array (Option Span)}, AgreeAlong f ids a b →
      (∀ n ∈ part, n ∈ ids ∧ u.children (f n) = (t.children n).map f) →
      AgreeAlong f ids (part.foldl (Index.cover t) a)
        ((part.map f).foldl (Index.cover u) b)
  | [], _, _, h, _ => h
  | n :: ns, a, b, h, hsub => by
    obtain ⟨hn, hchildren⟩ := hsub n (List.mem_cons_self ..)
    rw [List.map_cons, List.foldl_cons, List.foldl_cons]
    exact .coverAll hf (h.cover hf hn hchildren) fun m hm => hsub m (List.mem_cons_of_mem n hm)

section build

variable (h : Tree.AttachedAlong f t u) (ht : t.WellFormed) (hu : u.WellFormed)

include h ht hu

theorem agree_unknown : AgreeAlong f t.attached
    (Array.replicate t.nodes.size (none : Option α)) (Array.replicate u.nodes.size none) := by
  refine agree_replicate ?_
  intro n hn
  refine ⟨ht.lt_size_of_mem_attached hn, hu.lt_size_of_mem_attached ?_⟩
  rw [h.attached]
  exact List.mem_map_of_mem hn

/-- **Corresponding nodes have the same place in the order.** -/
theorem position_along (hf : Function.Injective f) (n : NodeId) :
    (build u).position (f n) = (build t).position n := by
  have hpositions := AgreeAlong.enumerate (k := 0) hf id (agree_unknown h ht hu) fun _ hm => hm
  rw [← h.attached] at hpositions
  exact hpositions.entry n

/-- **Corresponding nodes cover the same leaves.** -/
theorem span_along (hf : Function.Injective f) (n : NodeId) :
    (build u).span (f n) = (build t).span n := by
  have hleaves : u.attached.filter u.isLeaf = (t.attached.filter t.isLeaf).map f := by
    rw [h.attached, List.filter_map]
    congr 1
    refine List.filter_congr ?_
    intro m hm
    show (u.children (f m)).isEmpty = (t.children m).isEmpty
    rw [h.children m hm, List.isEmpty_map]
  have hleaf : ∀ m ∈ t.attached.filter t.isLeaf, m ∈ t.attached :=
    fun _ hm => (List.mem_filter.mp hm).1
  have hnumbered := AgreeAlong.enumerate (k := 0) hf (fun k => (⟨k, k⟩ : Span))
    (agree_unknown h ht hu) hleaf
  rw [← hleaves] at hnumbered
  -- the other nodes come in reverse order, so that children are covered before their parents
  have hnode : ∀ m ∈ t.attached.reverse,
      m ∈ t.attached ∧ u.children (f m) = (t.children m).map f := fun m hm =>
    ⟨List.mem_reverse.mp hm, h.children m (List.mem_reverse.mp hm)⟩
  have hcovered := AgreeAlong.coverAll hf hnumbered hnode
  rw [List.map_reverse, ← h.attached] at hcovered
  exact hcovered.entry n

end build

end Index

end Constituency
