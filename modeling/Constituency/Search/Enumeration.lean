import Constituency.Search.Machine
import Constituency.Bracket.Printer

/-!
# The matches of a pattern in a tree

Matches are enumerated root by root, the roots in the order of the tree and the solutions at a root
in the order of preference. A solution that was reported for a root is not reported again for it.
Where the root of a pattern accepts only given labels, the index supplies the roots.

An enumeration does not hold the tree it was made for, so the tree can be changed between matches.
Relabelling is seen by what follows; after a change of structure the enumeration is stale and
reports nothing more.
-/

namespace Constituency

/-- How many matches are reported for a root: the first, or all that differ. -/
inductive Mode where
  | firstPerRoot
  | allBindings
deriving DecidableEq, Repr

/-- A node that fits a pattern, with the bindings under which it does. -/
structure Match where
  root : NodeId
  bindings : Bindings
  names : List String
deriving DecidableEq, Repr

namespace Match

/-- The node bound to a name. -/
def node? (m : Match) (name : String) : Option NodeId :=
  (m.names.idxOf? name).bind m.bindings.node?

/-- The names that are bound, with their nodes, in the order of the pattern's variables. -/
def named (m : Match) : List (String × NodeId) :=
  (m.names.zip m.bindings).filterMap fun (name, id) => id.map (name, ·)

end Match

/-- An enumeration of the matches of a pattern, between two matches. -/
structure Enumeration where
  pattern : Pattern
  mode : Mode
  index : Index
  /-- The revision of the tree that the index was made from. -/
  revision : Nat
  /-- The roots that have not been tried. -/
  roots : List NodeId
  /-- The root being tried, and what is left to try there. -/
  current : Option (NodeId × Machine)
  /-- The solutions reported for the root being tried. -/
  seen : List Bindings
  stale : Bool

namespace Enumeration

/-- The labels that a description accepts, if it asks for nothing but given labels. -/
def literals? (d : Description) : Option (List Label) :=
  match d.negated, d.test with
  | false, .oneOf atoms => atoms.mapM fun
    | .literal l => some l
    | _ => none
  | _, _ => none

/-- The nodes that can be roots of matches, in the order of the tree. Those for given labels are
looked up label by label and then sorted; a label given twice does not give its nodes twice. -/
def rootsOf (p : Pattern) (i : Index) : List NodeId :=
  match literals? p.root.description with
  | some labels => ((labels.flatMap i.withLabel).mergeSort i.isBefore).eraseReps
  | none => i.preorder

/-- An enumeration of the matches in a tree. -/
def start (p : Pattern) (mode : Mode) (t : Tree) : Enumeration :=
  let index := Index.build t
  { pattern := p
    mode
    index
    revision := t.revision
    roots := rootsOf p index
    current := none
    seen := []
    stale := false }

/-- Whether the structure of the tree has changed since the enumeration was made. -/
def isStale (e : Enumeration) (t : Tree) : Bool :=
  e.stale || t.revision != e.revision

/-- The next match at the root being tried. -/
def resume (e : Enumeration) (t : Tree) : Option (Match × Enumeration) := do
  let (root, machine) ← e.current
  let (bindings, left) ← machine.nextUnseen ⟨t, e.index, e.pattern.marks⟩ e.seen
  let current := match e.mode with
    | .firstPerRoot => none
    | .allBindings => some (root, left)
  return (⟨root, bindings, e.pattern.names⟩, { e with current, seen := bindings :: e.seen })

/-- The next match at one of the roots that have not been tried. -/
def tryRoots (e : Enumeration) (t : Tree) : List NodeId → Option Match × Enumeration
  | [] => (none, { e with roots := [], current := none })
  | r :: rs =>
    let machine := Machine.start e.pattern.root r e.pattern.names.length
    let e := { e with roots := rs, current := some (r, machine), seen := [] }
    match e.resume t with
    | some (m, e) => (some m, e)
    | none => e.tryRoots t rs

/-- The next match in the tree, which must be the one the enumeration was made for. -/
def next (e : Enumeration) (t : Tree) : Option Match × Enumeration :=
  if e.isStale t then (none, { e with stale := true })
  else
    match e.resume t with
    | some (m, e) => (some m, e)
    | none => e.tryRoots t e.roots

/-! ## Every enumeration ends -/

/-- What is left to try at the root being tried. -/
def row (e : Enumeration) : Row :=
  match e.current with
  | none => ⟨[]⟩
  | some (_, machine) => machine.row

theorem resume_row {e e' : Enumeration} {t : Tree} {m : Match} (h : e.resume t = some (m, e')) :
    e'.roots = e.roots ∧ Relation.TransGen Row.Shrinks e'.row.sizes e.row.sizes := by
  unfold resume at h
  obtain ⟨⟨root, machine⟩, hcurrent, h⟩ := Option.bind_eq_some_iff.mp h
  obtain ⟨⟨b, left⟩, hnext, h⟩ := Option.bind_eq_some_iff.mp h
  obtain ⟨_, rfl⟩ := Prod.mk.inj (Option.some.inj h)
  have hrow : e.row = machine.row := by unfold row; rw [hcurrent]
  refine ⟨rfl, ?_⟩
  rw [hrow]
  cases hmode : e.mode with
  | firstPerRoot =>
    have hdrop : Row.Shrinks [] machine.row.sizes := Row.shrinks_nil _ _
    simpa only [row, hmode] using .single hdrop
  | allBindings => simpa only [row, hmode] using Machine.nextUnseen_row hnext

theorem tryRoots_roots {e e' : Enumeration} {t : Tree} {m : Match} {roots : List NodeId}
    (h : e.tryRoots t roots = (some m, e')) : e'.roots.length < roots.length := by
  induction roots generalizing e with
  | nil => exact absurd (Prod.mk.inj h).1 (by simp)
  | cons r rs ih =>
    rw [tryRoots] at h
    split at h
    · rename_i m' found hfound
      obtain ⟨_, rfl⟩ := Prod.mk.inj h
      rw [(resume_row hfound).1]
      exact Nat.lt_succ_self _
    · exact Nat.lt_succ_of_lt (ih h)

/-- A match leaves fewer roots to try, or less to try at the same root. -/
theorem next_decreases {e e' : Enumeration} {t : Tree} {m : Match} (h : e.next t = (some m, e')) :
    Prod.Lex (· < ·) WellFoundedRelation.rel (e'.roots.length, e'.row) (e.roots.length, e.row) := by
  unfold next at h
  split at h
  · exact absurd (Prod.mk.inj h).1 (by simp)
  · split at h
    · rename_i found hfound
      obtain ⟨_, rfl⟩ := Prod.mk.inj h
      obtain ⟨hroots, hrow⟩ := resume_row hfound
      rw [hroots]
      exact .right _ hrow
    · exact .left _ _ (tryRoots_roots h)

end Enumeration

/-- The matches that an enumeration has still to report for a tree. -/
def Enumeration.remaining (t : Tree) (e : Enumeration) : List Match :=
  match _h : e.next t with
  | (none, _) => []
  | (some m, e') => m :: remaining t e'
termination_by (e.roots.length, e.row)
decreasing_by exact next_decreases _h

/-- The matches of a pattern in a tree. -/
def Pattern.search (p : Pattern) (mode : Mode) (t : Tree) : List Match :=
  (Enumeration.start p mode t).remaining t

end Constituency
