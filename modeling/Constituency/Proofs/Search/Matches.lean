import Mathlib.Data.List.TakeWhile
import Constituency.Proofs.Search.Answers
import Constituency.Proofs.Search.Roots
import Constituency.Proofs.Tree.Preservation

/-!
# An enumeration reports the solutions, root by root

What a search should report needs no machine and no index: the solutions of the
pattern at every attached node, without those that repeat an earlier one at the
same node, or only the first of them. An enumeration holds a part of this list
at any time, its outstanding matches: what the machine at the current root has
still to answer with and was not seen before, and then all that the other roots
have. Asking for a match takes the first one off.

Since the nodes that the index leaves out have no solutions, the roots from the
index and the list of all attached nodes give the same matches.
-/

namespace Constituency

/-! ## What has not been seen -/

/-- Bindings without repetitions and without those seen before. -/
def Bindings.unseen (seen bs : List Bindings) : List Bindings :=
  (bs.filter fun b => !seen.contains b).eraseDups

/-- The bindings to be reported of those at one root. -/
def Mode.reported (seen bs : List Bindings) : Mode → List Bindings
  | .firstPerRoot => (Bindings.unseen seen bs).take 1
  | .allBindings => Bindings.unseen seen bs

namespace Bindings

theorem unseen_nil (bs : List Bindings) : unseen [] bs = bs.eraseDups := by
  rw [unseen]
  congr 1
  exact List.filter_eq_self.mpr fun _ _ => rfl

theorem take_one_eraseDups (bs : List Bindings) : bs.eraseDups.take 1 = bs.head?.toList := by
  cases bs with
  | nil => rfl
  | cons b bs =>
    rw [List.eraseDups_cons]
    rfl

theorem unseen_of_dropWhile_nil {seen bs : List Bindings}
    (h : bs.dropWhile seen.contains = []) : unseen seen bs = [] := by
  have hall : ∀ b ∈ bs, seen.contains b = true := List.dropWhile_eq_nil_iff.mp h
  rw [unseen, List.filter_eq_nil_iff.mpr fun b hb => by rw [hall b hb]; exact Bool.false_ne_true]
  rfl

/-- The first that was not seen is reported, and has been seen from then on. -/
theorem unseen_of_dropWhile_cons {seen bs rest : List Bindings} {b : Bindings}
    (h : bs.dropWhile seen.contains = b :: rest) :
    unseen seen bs = b :: unseen (b :: seen) rest := by
  induction bs with
  | nil => exact absurd h (by simp)
  | cons c bs ih =>
    rw [List.dropWhile_cons] at h
    by_cases hc : seen.contains c = true
    · rw [if_pos hc] at h
      rw [unseen, List.filter_cons_of_neg (by rw [hc]; exact Bool.false_ne_true)]
      exact ih h
    · rw [if_neg hc] at h
      obtain ⟨rfl, rfl⟩ := List.cons.inj h
      -- what `eraseDups` drops on account of `c` is what having seen `c` drops
      rw [unseen, List.filter_cons_of_pos (by simpa using hc), List.eraseDups_cons,
        List.filter_filter, unseen]
      congr 2
      refine List.filter_congr ?_
      intro x _
      rw [List.contains_cons, Bool.not_or]

end Bindings

/-- Passing over seen solutions drops them from what remains. -/
theorem Machine.nextUnseen_remaining (s : Scene) (seen : List Bindings) (m : Machine) :
    (m.remaining s).dropWhile seen.contains =
      match m.nextUnseen s seen with
      | none => []
      | some (b, m') => b :: m'.remaining s := by
  induction m using nextUnseen.induct s seen with
  | case1 m m' hnext =>
    rw [nextUnseen, hnext, remaining_of_next_none hnext]
    rfl
  | case2 m b m' hnext hseen ih =>
    rw [nextUnseen, hnext, remaining_of_next hnext, List.dropWhile_cons_of_pos hseen, ih]
    dsimp only
    rw [if_pos hseen]
  | case3 m b m' hnext hseen =>
    rw [nextUnseen, hnext, remaining_of_next hnext, List.dropWhile_cons_of_neg hseen]
    dsimp only
    rw [if_neg hseen]

theorem nodup_eraseDups {α : Type} [BEq α] [LawfulBEq α] (as : List α) : as.eraseDups.Nodup := by
  -- on the length: what is left of the list behind its first element is filtered
  induction hlength : as.length using Nat.strongRecOn generalizing as with
  | ind k ih =>
    cases as with
    | nil => exact .nil
    | cons a as =>
      rw [List.eraseDups_cons, List.nodup_cons]
      refine ⟨fun ha => ?_, ih _ ?_ _ rfl⟩
      · rw [List.mem_eraseDups, List.mem_filter] at ha
        exact absurd ha.2 (by simp)
      · rw [← hlength, List.length_cons]
        exact Nat.lt_succ_of_le (List.length_filter_le ..)

theorem Mode.nodup_reported (mode : Mode) (seen bs : List Bindings) :
    (mode.reported seen bs).Nodup := by
  cases mode with
  | firstPerRoot => exact (nodup_eraseDups _).sublist (List.take_sublist 1 _)
  | allBindings => exact nodup_eraseDups _

namespace Enumeration

/-! ## Outstanding matches -/

/-- What an enumeration sees of a tree. -/
def scene (e : Enumeration) (t : Tree) : Scene := ⟨t, e.index, e.pattern.marks⟩

/-- The match at a root with given bindings. -/
def found (e : Enumeration) (root : NodeId) (b : Bindings) : Match := ⟨root, b, e.pattern.names⟩

/-- The matches at a root that has not been tried. -/
def matchesAt (e : Enumeration) (t : Tree) (root : NodeId) : List Match :=
  (e.mode.reported [] (e.pattern.root.solutions (e.scene t) root
    (.unbound e.pattern.names.length))).map (e.found root)

/-- The matches still to come at the root being tried. -/
def resumable (e : Enumeration) (t : Tree) : List Match :=
  match e.current with
  | none => []
  | some (root, machine) =>
    (e.mode.reported e.seen (machine.remaining (e.scene t))).map (e.found root)

/-- The matches still to come. -/
def outstanding (e : Enumeration) (t : Tree) : List Match :=
  e.resumable t ++ e.roots.flatMap (e.matchesAt t)

/-- Two enumerations of one pattern, in one mode, made from one state of one tree. -/
structure Alike (e e' : Enumeration) : Prop where
  pattern : e'.pattern = e.pattern
  mode : e'.mode = e.mode
  index : e'.index = e.index
  revision : e'.revision = e.revision
  stale : e'.stale = e.stale

theorem Alike.matchesAt {e e' : Enumeration} (h : Alike e e') (t : Tree) :
    e'.matchesAt t = e.matchesAt t := by
  funext root
  unfold Enumeration.matchesAt scene found
  rw [h.pattern, h.mode, h.index]

theorem Alike.trans {a b c : Enumeration} (hab : Alike a b) (hbc : Alike b c) : Alike a c :=
  ⟨hbc.pattern.trans hab.pattern, hbc.mode.trans hab.mode, hbc.index.trans hab.index,
    hbc.revision.trans hab.revision, hbc.stale.trans hab.stale⟩

theorem Alike.isStale {e e' : Enumeration} (h : Alike e e') (t : Tree) :
    e'.isStale t = e.isStale t := by
  rw [Enumeration.isStale, Enumeration.isStale, h.stale, h.revision]

theorem reported_of_dropWhile_nil (mode : Mode) {seen bs : List Bindings}
    (h : bs.dropWhile seen.contains = []) : mode.reported seen bs = [] := by
  cases mode with
  | firstPerRoot => rw [Mode.reported, Bindings.unseen_of_dropWhile_nil h, List.take_nil]
  | allBindings => rw [Mode.reported, Bindings.unseen_of_dropWhile_nil h]

/-- Nothing more comes at the current root when its machine has no new answer. -/
theorem resume_none {e : Enumeration} {t : Tree} (h : e.resume t = none) :
    e.resumable t = [] := by
  unfold resumable
  cases hcurrent : e.current with
  | none => rfl
  | some current =>
    obtain ⟨root, machine⟩ := current
    have hnext : machine.nextUnseen (e.scene t) e.seen = none := by
      unfold resume at h
      rw [hcurrent] at h
      cases hn : machine.nextUnseen (e.scene t) e.seen with
      | none => rfl
      | some x =>
        have hx := Option.bind_eq_none_iff.mp (Option.bind_eq_none_iff.mp h _ rfl) x hn
        exact absurd hx (by simp)
    have hdrop := machine.nextUnseen_remaining (e.scene t) e.seen
    rw [hnext] at hdrop
    dsimp only
    rw [reported_of_dropWhile_nil e.mode hdrop, List.map_nil]

/-- **A match at the current root is the first outstanding one.** -/
theorem resume_some {e e' : Enumeration} {t : Tree} {m : Match} (h : e.resume t = some (m, e')) :
    Alike e e' ∧ e.resumable t = m :: e'.resumable t ∧ e'.roots = e.roots := by
  unfold resume at h
  obtain ⟨⟨root, machine⟩, hcurrent, h⟩ := Option.bind_eq_some_iff.mp h
  obtain ⟨⟨b, left⟩, hnext, h⟩ := Option.bind_eq_some_iff.mp h
  obtain ⟨rfl, rfl⟩ := Prod.mk.inj (Option.some.inj h)
  have hdrop := machine.nextUnseen_remaining (e.scene t) e.seen
  rw [show machine.nextUnseen (e.scene t) e.seen = some (b, left) from hnext] at hdrop
  refine ⟨⟨rfl, rfl, rfl, rfl, rfl⟩, ?_, rfl⟩
  unfold resumable
  rw [hcurrent]
  dsimp only
  cases hmode : e.mode with
  | firstPerRoot =>
    rw [Mode.reported, Bindings.unseen_of_dropWhile_cons hdrop]
    rfl
  | allBindings =>
    rw [Mode.reported, Bindings.unseen_of_dropWhile_cons hdrop]
    rfl

/-- An enumeration that turns to the next root. -/
def turnTo (e : Enumeration) (r : NodeId) (rs : List NodeId) : Enumeration :=
  { e with
    roots := rs
    current := some (r, Machine.start e.pattern.root r e.pattern.names.length)
    seen := [] }

theorem tryRoots_cons (e : Enumeration) (t : Tree) (r : NodeId) (rs : List NodeId) :
    e.tryRoots t (r :: rs) = match (e.turnTo r rs).resume t with
      | some (m, e) => (some m, e)
      | none => (e.turnTo r rs).tryRoots t rs :=
  rfl

theorem alike_turnTo (e : Enumeration) (r : NodeId) (rs : List NodeId) : Alike e (e.turnTo r rs) :=
  ⟨rfl, rfl, rfl, rfl, rfl⟩

/-- A root that has not been tried has its matches outstanding when the enumeration turns to it. -/
theorem resumable_turnTo (e : Enumeration) (t : Tree) (r : NodeId) (rs : List NodeId) :
    (e.turnTo r rs).resumable t = e.matchesAt t r := by
  unfold resumable matchesAt turnTo
  dsimp only
  rw [Machine.remaining_start]
  rfl

/-- The first outstanding match is reported, and `none` only if there is none. -/
def Takes (e e' : Enumeration) (t : Tree) (expected : List Match) : Option Match → Prop
  | none => expected = []
  | some m => Alike e e' ∧ expected = m :: e'.outstanding t

theorem tryRoots_outstanding {e e' : Enumeration} {t : Tree} {roots : List NodeId}
    {m : Option Match} (h : e.tryRoots t roots = (m, e')) :
    Takes e e' t (roots.flatMap (e.matchesAt t)) m := by
  induction roots generalizing e with
  | nil =>
    obtain ⟨rfl, _⟩ := Prod.mk.inj h
    rfl
  | cons r rs ih =>
    rw [tryRoots_cons] at h
    have halike := e.alike_turnTo r rs
    rw [List.flatMap_cons, ← e.resumable_turnTo t r rs]
    split at h
    · rename_i hfound
      obtain ⟨rfl, rfl⟩ := Prod.mk.inj h
      obtain ⟨hsame, hres, hroots⟩ := resume_some hfound
      refine ⟨halike.trans hsame, ?_⟩
      rw [hres, List.cons_append, outstanding, hroots, (halike.trans hsame).matchesAt t]
      rfl
    · -- nothing is outstanding at the root just begun, and the others are tried
      rename_i hnone
      have hrest := ih h
      rw [halike.matchesAt t] at hrest
      rw [resume_none hnone, List.nil_append]
      cases m with
      | none => exact hrest
      | some m => exact ⟨halike.trans hrest.1, hrest.2⟩

/-- **Asking for a match takes the first outstanding one.** -/
theorem next_outstanding {e e' : Enumeration} {t : Tree} {m : Option Match}
    (hstale : e.isStale t = false) (h : e.next t = (m, e')) :
    Takes e e' t (e.outstanding t) m := by
  rw [next, if_neg (by rw [hstale]; exact Bool.false_ne_true)] at h
  split at h
  · rename_i hfound
    obtain ⟨rfl, rfl⟩ := Prod.mk.inj h
    obtain ⟨hsame, hres, hroots⟩ := resume_some hfound
    refine ⟨hsame, ?_⟩
    rw [outstanding, outstanding, hres, hroots, hsame.matchesAt t, List.cons_append]
  · rename_i hnone
    rw [outstanding, resume_none hnone, List.nil_append]
    exact tryRoots_outstanding h

theorem remaining_of_next {e e' : Enumeration} {t : Tree} {m : Match}
    (h : e.next t = (some m, e')) : e.remaining t = m :: e'.remaining t := by
  rw [remaining, h]

theorem remaining_of_next_none {e e' : Enumeration} {t : Tree} (h : e.next t = (none, e')) :
    e.remaining t = [] := by
  rw [remaining, h]

/-- **What is enumerated is what is outstanding.** -/
theorem remaining_eq (t : Tree) (e : Enumeration) (h : e.isStale t = false) :
    e.remaining t = e.outstanding t := by
  induction e using remaining.induct t with
  | case1 e e' hnext =>
    rw [remaining_of_next_none hnext]
    exact (next_outstanding h hnext).symm
  | case2 e m e' hnext ih =>
    obtain ⟨hsame, hout⟩ := next_outstanding h hnext
    rw [remaining_of_next hnext, hout, ih ((hsame.isStale t).trans h)]

/-! ## Roots without matches -/

/-- A description that asks for nothing but labels fits only nodes that have one of them. -/
theorem label_mem_of_holds {d : Description} {labels : List Label} {t : Tree} {marks : Marks}
    {b : Bindings} {id : NodeId} (hd : literals? d = some labels)
    (h : d.holds t marks b id = true) : t.label id ∈ labels := by
  obtain ⟨negated, test, predicates⟩ := d
  unfold literals? at hd
  split at hd
  · rename_i atoms hneg htest
    obtain rfl : negated = false := hneg
    obtain rfl : test = .oneOf atoms := htest
    have htest := (Bool.and_eq_true_iff.mp h).2
    rw [LabelTest.holds, Bool.bne_false] at htest
    -- the predicates play no part: by induction on the alternatives alone
    clear h
    induction atoms generalizing labels with
    | nil => exact absurd htest (by simp)
    | cons a as ih =>
      rw [List.mapM_cons] at hd
      obtain ⟨l, hl, hd⟩ := Option.bind_eq_some_iff.mp hd
      obtain ⟨ls, hls, hd⟩ := Option.bind_eq_some_iff.mp hd
      obtain rfl := Option.some.inj hd
      rw [List.any_cons] at htest
      rcases Bool.or_eq_true_iff.mp htest with ha | has
      · cases a with
        | literal k =>
          obtain rfl := Option.some.inj hl
          rw [Atom.matches, beq_iff_eq] at ha
          rw [ha]
          exact List.mem_cons_self ..
        | regex r => exact absurd hl (by simp)
        | category name => exact absurd hl (by simp)
      · exact List.mem_cons_of_mem l (ih hls has)
  · exact absurd hd (by simp)

/-- A node that does not look as described has no solutions. -/
theorem solutions_of_not_holds {s : Scene} {p : NodePattern} {id : NodeId} {b : Bindings}
    (h : p.description.holds s.tree s.marks b id = false) : p.solutions s id b = [] := by
  obtain ⟨d, v, c⟩ := p
  have henter : s.enter d v id b = none := by
    rw [Scene.enter, if_neg]
    rw [show d.holds s.tree s.marks b id = false from h]
    exact Bool.false_ne_true
  cases c with
  | none => rw [NodePattern.solutions, henter, Option.toList_none]
  | some c => rw [NodePattern.solutions, henter]

/-- The index leaves out no node that has a match. -/
theorem matchesAt_of_label_not_mem {e : Enumeration} {labels : List Label} {t : Tree} {id : NodeId}
    (hlabels : literals? e.pattern.root.description = some labels) (h : t.label id ∉ labels) :
    e.matchesAt t id = [] := by
  have hnone : e.pattern.root.solutions (e.scene t) id (.unbound e.pattern.names.length) = [] := by
    refine solutions_of_not_holds (Bool.eq_false_iff.mpr fun hholds => h ?_)
    exact label_mem_of_holds hlabels hholds
  rw [matchesAt, hnone, reported_of_dropWhile_nil e.mode rfl, List.map_nil]

/-- **The roots from the index have the matches that all attached nodes have.** -/
theorem flatMap_rootsOf {t : Tree} (h : t.WellFormed) (p : Pattern) (mode : Mode) :
    (rootsOf p (Index.build t)).flatMap ((start p mode t).matchesAt t) =
      t.attached.flatMap ((start p mode t).matchesAt t) := by
  unfold rootsOf
  cases hlabels : literals? p.root.description with
  | none => rfl
  | some labels =>
    dsimp only
    rw [roots_of_labels h]
    refine flatMap_filter_of_nil _ ?_
    intro id _ hid
    exact matchesAt_of_label_not_mem hlabels (by simpa using hid)

theorem isStale_start (p : Pattern) (mode : Mode) (t : Tree) :
    (start p mode t).isStale t = false := by
  rw [isStale]
  show (false || t.revision != t.revision) = false
  rw [Bool.false_or, bne_self_eq_false]

end Enumeration

namespace Pattern

/-- The solutions of a pattern at a node of a tree, in the order in which a machine finds them. -/
def solutionsAt (p : Pattern) (t : Tree) (root : NodeId) : List Bindings :=
  p.root.solutions ⟨t, Index.build t, p.marks⟩ root (.unbound p.names.length)

/-- The search that tries every attached node, without a look at the index. -/
def searchAttached (p : Pattern) (mode : Mode) (t : Tree) : List Match :=
  ({ Enumeration.start p mode t with roots := t.attached } : Enumeration).remaining t

theorem search_eq_flatMap {t : Tree} (h : t.WellFormed) (p : Pattern) (mode : Mode) :
    p.search mode t = t.attached.flatMap ((Enumeration.start p mode t).matchesAt t) := by
  rw [search, Enumeration.remaining_eq t _ (Enumeration.isStale_start p mode t)]
  exact Enumeration.flatMap_rootsOf h p mode

/-- **A search reports no match twice.** -/
theorem search_nodup {t : Tree} (h : t.WellFormed) (p : Pattern) (mode : Mode) :
    (p.search mode t).Nodup := by
  have hroot : ∀ {root : NodeId} {m : Match},
      m ∈ (Enumeration.start p mode t).matchesAt t root → m.root = root := by
    intro root m hm
    obtain ⟨b, _, rfl⟩ := List.mem_map.mp hm
    rfl
  rw [search_eq_flatMap h]
  refine List.pairwise_flatMap.mpr ⟨fun root _ => ?_, h.attached_nodup.imp ?_⟩
  · exact (Mode.nodup_reported ..).map fun _ _ hb => (Match.mk.inj hb).2.1
  · intro a b hne x hx y hy hxy
    exact hne ((hroot hx).symm.trans (hxy ▸ hroot hy))

theorem searchAttached_eq_flatMap (p : Pattern) (mode : Mode) (t : Tree) :
    p.searchAttached mode t = t.attached.flatMap ((Enumeration.start p mode t).matchesAt t) := by
  rw [searchAttached, Enumeration.remaining_eq]
  · rfl
  · exact Enumeration.isStale_start p mode t

/-- **A search reports the solutions at every attached node.** With all bindings asked for, these
are the solutions at the nodes in pre-order, a repeated one at the same node only where it comes
first; with one match for a root, it is the first solution at each node that has any. Looking up the
roots by label gives what trying every node gives, and a tree without a root has no matches. -/
theorem search_eq_solutions {t : Tree} (h : t.WellFormed) (p : Pattern) :
    p.search .allBindings t =
        t.attached.flatMap (fun r => (p.solutionsAt t r).eraseDups.map (⟨r, ·, p.names⟩)) ∧
      p.search .firstPerRoot t =
        t.attached.filterMap (fun r => (p.solutionsAt t r).head?.map (⟨r, ·, p.names⟩)) ∧
      (∀ mode, p.search mode t = p.searchAttached mode t) ∧
      (t.root = none → ∀ mode, p.search mode t = []) := by
  refine ⟨?_, ?_, ?_, ?_⟩
  · rw [search_eq_flatMap h]
    refine List.flatMap_congr ?_
    intro r _
    rw [Enumeration.matchesAt, ← Bindings.unseen_nil]
    rfl
  · rw [search_eq_flatMap h, List.filterMap_eq_flatMap_toList]
    refine List.flatMap_congr ?_
    intro r _
    rw [Enumeration.matchesAt,
      show (Enumeration.start p .firstPerRoot t).mode = .firstPerRoot from rfl, Mode.reported,
      Bindings.unseen_nil, Bindings.take_one_eraseDups]
    exact Option.toList_map.symm
  · intro mode
    rw [search_eq_flatMap h, searchAttached_eq_flatMap]
  · intro hroot mode
    rw [search_eq_flatMap h, Tree.attached, hroot]
    rfl

/-- In `(S (N a) (V (N b)))` the pattern `N|V|N` has the three matches `N`, `V`, `N`, and none in
the tree without nodes. -/
theorem search_eq_solutions_of_three :
    let c : Constituent :=
      .node "S" [.node "N" [.node "a" []], .node "V" [.node "N" [.node "b" []]]]
    let atoms := [Atom.literal "N", .literal "V", .literal "N"]
    let p : Pattern := ⟨"N|V|N", .mk ⟨false, .oneOf atoms, []⟩ none none, [], [], []⟩
    (Tree.ofConstituent (some c)).WellFormed ∧
      p.search .allBindings (Tree.ofConstituent (some c)) =
        [⟨1, [], []⟩, ⟨3, [], []⟩, ⟨4, [], []⟩] ∧
      Tree.empty.WellFormed ∧ p.search .firstPerRoot Tree.empty = [] := by
  intro c atoms p
  have h := Tree.wellFormed_ofConstituent (some c)
  refine ⟨h, ?_, Tree.wellFormed_empty,
    (search_eq_solutions Tree.wellFormed_empty p).2.2.2 rfl .firstPerRoot⟩
  rw [(search_eq_solutions h p).1]
  decide

end Pattern

end Constituency
