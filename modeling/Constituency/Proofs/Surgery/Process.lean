import Constituency.Proofs.Search.Known
import Constituency.Proofs.Surgery.Operation
import Constituency.Surgery.Process

/-!
# Scripts, and scripts for all matches

Applying a script to a match starts with the names that the match captures, and
these have their nodes if the match is of an arena that has only grown since. So
whatever a script does to the tree are known requests, and it never misses a node.
The same holds of applying a script to all matches, where every match comes from
an enumeration of the tree as it is.
-/

namespace Constituency

open Constituency.Tree Constituency.Surgery

variable {t u v : Tree}

/-- The second tree comes from the first by known requests, and no report is of a missing node. -/
structure Tree.Processed (t u : Tree) (reports : List Diagnostic) : Prop where
  edits : Edits t u
  proper : ∀ d ∈ reports, d.isFault = false

theorem Tree.Processed.refl (t : Tree) : Processed t t [] :=
  ⟨.refl t, fun _ h => absurd h (by simp)⟩

theorem Tree.Processed.trans {first second : List Diagnostic} (htu : Processed t u first)
    (huv : Processed u v second) : Processed t v (first ++ second) := by
  refine ⟨htu.edits.trans huv.edits, ?_⟩
  intro d hd
  exact (List.mem_append.mp hd).elim (htu.proper d) (huv.proper d)

/-- **Applying a script to a match of the arena.** -/
theorem Script.apply_processed (s : Script) (ht : t.WellFormed) {m : Match}
    (hm : m.Known t.nodes.size) :
    Processed t (s.apply t m).tree (s.apply t m).diagnostics := by
  have hran := Operation.runAll_ran s.marks s.operations (s := ⟨t, m, []⟩) ht
  have hnames : NamesKnown ⟨t, m, []⟩ := fun name id hid => hm.node hid
  exact ⟨hran.continued.edits, hran.proper hnames⟩

namespace Rule

/-- **Applying a script to the matches still to come.** -/
theorem runFrom_processed (r : Rule) (limit : Nat) {e : Enumeration} (ht : t.WellFormed)
    (he : e.Known t.nodes.size) :
    Processed t (r.runFrom limit e t).1 (r.runFrom limit e t).2.diagnostics := by
  induction limit generalizing e t with
  | zero =>
    unfold runFrom
    split
    · exact .refl t
    · rcases e.next t with ⟨_ | m, e'⟩
      · exact .refl t
      · exact .refl t
  | succ limit ih =>
    unfold runFrom
    split
    · exact .refl t
    · rcases hnext : e.next t with ⟨_ | m, e'⟩
      · exact .refl t
      · obtain ⟨hm, he'⟩ := Enumeration.next_known ht he hnext
        have hfirst := r.script.apply_processed ht hm
        obtain ⟨hwf, hsize⟩ := ht.edits hfirst.edits
        -- a changed structure makes the enumeration start anew; else the old one goes on
        dsimp only
        generalize hnew : (if (r.script.apply t m).restructured then
          Enumeration.start r.pattern .allBindings (r.script.apply t m).tree else e') = e''
        have he'' : e''.Known (r.script.apply t m).tree.nodes.size := by
          rw [← hnew]
          split
          · exact Enumeration.start_known hwf r.pattern .allBindings
          · exact he'.mono hsize
        exact hfirst.trans (ih hwf he'')

theorem run_processed (r : Rule) (limit : Nat) (ht : t.WellFormed) :
    Processed t (r.run limit t).1 (r.run limit t).2.diagnostics :=
  r.runFrom_processed limit ht (Enumeration.start_known ht r.pattern .allBindings)

end Rule

end Constituency
