import Constituency.Proofs.Surgery.Operation

/-!
# A refused operation leaves the attached tree alone

An operation that reports a name without a node, or that the tree does not admit
it, may have made copies and trees of templates before. These lie detached at the
end of the arena: the tree has only grown, and growing shows nowhere in the
attached part.
-/

namespace Constituency

open Constituency.Tree Constituency.Surgery

/-- Whether a report says that an operation was given up: a name had no node, or the tree did not
admit it. -/
def Diagnostic.isRefusal : Diagnostic → Bool
  | .unresolvedNode _ => true
  | .regexMismatch _ _ => false
  | .skipped _ _ => true

namespace Operation

/-- **A refused operation changes nothing of the attached tree.** If an operation other than
`delete`, `prune` and `coindex`, under any guards, reports that it was given up, then the root, the
revision and the attached nodes are those from before, with their labels, parents and children. It
does not matter what the match binds and what names were declared before. -/
theorem attached_of_refused {t : Tree} (h : t.WellFormed) (m : Match)
    (created : List (String × NodeId)) (marks : Marks) (o : Operation) (hatomic : o.isAtomic = true)
    (hrefused : ∃ d ∈ (o.run marks ⟨t, m, created⟩).2, d.isRefusal = true) :
    (o.run marks ⟨t, m, created⟩).1.tree.root = t.root ∧
      (o.run marks ⟨t, m, created⟩).1.tree.revision = t.revision ∧
      (o.run marks ⟨t, m, created⟩).1.tree.attached = t.attached ∧
      ∀ n ∈ t.attached,
        (o.run marks ⟨t, m, created⟩).1.tree.label n = t.label n ∧
          (o.run marks ⟨t, m, created⟩).1.tree.parent n = t.parent n ∧
          (o.run marks ⟨t, m, created⟩).1.tree.children n = t.children n := by
  obtain ⟨d, hd, _⟩ := hrefused
  have hrun : Attempted ⟨t, m, created⟩ (o.run marks ⟨t, m, created⟩).1
      (o.run marks ⟨t, m, created⟩).2 := runAs_attempted o.keyword marks o hatomic h
  have hgrown := (hrun.prepared (List.ne_nil_of_mem hd)).grown
  exact ⟨hgrown.root_eq, hgrown.revision_eq, hgrown.attached_eq h,
    fun n hn => hgrown.reads_eq (h.lt_size_of_mem_attached hn)⟩

/-- The root of `(S a b)` cannot be replaced by copies of two nodes, though both have been made. -/
theorem attached_of_refused_replace :
    let t := Tree.ofConstituent (some (.node "S" [.node "a" [], .node "b" []]))
    let m : Match := ⟨0, [some 0, some 1], ["s", "a"]⟩
    let o := Operation.ifExists "s" false (.replace "s" [.copyOf "a", .copyOf "s"])
    (o.run [] ⟨t, m, []⟩).2 = [.skipped "if" .rootNeedsOneNode] ∧
      (o.run [] ⟨t, m, []⟩).1.tree.arenaSize = 7 ∧
      (o.run [] ⟨t, m, []⟩).1.tree.attached = t.attached := by
  intro t m o
  have hreport : (o.run [] ⟨t, m, []⟩).2 = [.skipped "if" .rootNeedsOneNode] := by decide +kernel
  have hrefused : ∃ d ∈ (o.run [] ⟨t, m, []⟩).2, d.isRefusal = true :=
    ⟨.skipped "if" .rootNeedsOneNode, by rw [hreport]; exact List.mem_singleton_self _, rfl⟩
  have hsame := attached_of_refused (t := t) (wellFormed_ofConstituent _) m [] [] o rfl hrefused
  exact ⟨hreport, by decide +kernel, hsame.2.2.1⟩

end Operation

end Constituency
