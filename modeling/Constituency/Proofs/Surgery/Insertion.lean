import Constituency.Proofs.Relation.Candidates
import Constituency.Proofs.Surgery.Templates

/-!
# Inserting and moving

A place is written with the token of a relation, and what is inserted there stands in that relation
to the node that the place is given by. The index at which it goes in is found before anything has
changed, among the children that will be left when a node that is about to move has gone
(`Place.IsAt`). So the whole argument is about one list: the children that are left, with the new
node among them at that index.

An insertion is refused if there is no such index (`Tree.Admits`), and a move also if it would take
the root from its place or a node below itself.
-/

namespace Constituency

open Constituency.Tree

/-- The relation that is written with the token of a place. -/
def Place.relation : Place → Relation
  | .leftOf _ => .immediateLeftSisterOf
  | .rightOf _ => .immediateRightSisterOf
  | .child _ n => .nthChildOf n

example (n : String) : Relation.ofToken? "$+" = some (Place.leftOf n).relation := rfl

example (n : String) : Relation.ofToken? "$-" = some (Place.rightOf n).relation := rfl

/-- Whether a place that is given by `a` is at an index among the children `rest` of `p`. -/
def Place.IsAt (rest : List NodeId) (p a : NodeId) (i : Nat) : Place → Prop
  | .leftOf _ => rest[i]? = some a
  | .rightOf _ => ∃ j, rest[j]? = some a ∧ i = j + 1
  | .child _ n => p = a ∧ i ≤ rest.length ∧ (n = i + 1 ∨ n = i - (rest.length + 1 : Nat))

theorem Place.IsAt.le {place : Place} {rest : List NodeId} {p a : NodeId} {i : Nat}
    (h : place.IsAt rest p a i) : i ≤ rest.length := by
  cases place with
  | leftOf n => exact Nat.le_of_lt (List.getElem?_eq_some_iff.mp h).1
  | rightOf n =>
    obtain ⟨j, hj, rfl⟩ := h
    exact (List.getElem?_eq_some_iff.mp hj).1
  | child n position => exact h.2.1

/-- The labelled tree that an operand stands for. -/
def Operand.constituent (s : Surgery) : Operand → Except Obstacle Constituent
  | .copyOf name => s.fetchConstituent name
  | .made template =>
    match template.tree with
    | none => .error (.refused .templateEmpty)
    | some slots => (slots.fill s.fetchConstituent).map (·.map Prod.fst)

namespace Tree

variable {t u : Tree} {moving : Option NodeId} {a p x : NodeId} {place : Place} {i : Nat}

/-- Whether there is a place given by an attached node, once a node that is about to move has left
its own: the root has no sisters, and a child position counts the children that are left and one
more. -/
def Admits (t : Tree) (moving : Option NodeId) (a : NodeId) : Place → Prop
  | .leftOf _ => t.root ≠ some a
  | .rightOf _ => t.root ≠ some a
  | .child _ n =>
    let k : Int := (t.childrenBut a moving).length
    (1 ≤ n ∧ n ≤ k + 1) ∨ (-(k + 1) ≤ n ∧ n ≤ -1)

/-! ## Finding the place -/

theorem childrenBut_some (t : Tree) (p x : NodeId) :
    t.childrenBut p (some x) = (t.children p).filter (· != x) :=
  List.filter_congr fun c _ => by simp [bne]

theorem childrenBut_none (t : Tree) (p : NodeId) : t.childrenBut p none = t.children p :=
  List.filter_eq_self.mpr fun c _ => by simp

/-- A node that stays has an index among the children that are left, if it has a parent. -/
theorem WellFormed.sisterIndex_of_parent (h : t.WellFormed) (hp : t.parent a = some p)
    (hmoving : moving ≠ some a) :
    ∃ i, t.sisterIndex a moving = .ok (p, i) ∧ (t.childrenBut p moving)[i]? = some a := by
  have hmem : a ∈ t.childrenBut p moving :=
    List.mem_filter.mpr ⟨(h.mem_children_iff p a).mpr hp, bne_iff_ne.mpr (Ne.symm hmoving)⟩
  obtain ⟨i, hi⟩ := Option.isSome_iff_exists.mp (List.isSome_idxOf?.mpr hmem)
  refine ⟨i, by rw [sisterIndex, hp]; dsimp only; rw [hi], ?_⟩
  obtain ⟨hlt, hget, _⟩ := List.idxOf?_eq_some_iff.mp hi
  rw [List.getElem?_eq_getElem hlt, hget]

/-- **The index of a place is found exactly if there is the place.** -/
theorem WellFormed.locate_spec (h : t.WellFormed) (place : Place) (ha : t.isAttached a = true)
    (hmoving : moving ≠ some a) :
    match t.locate place a moving with
    | .ok (p, i) => t.Admits moving a place ∧ t.AtOrUnder a p ∧
        place.IsAt (t.childrenBut p moving) p a i
    | .error _ => ¬ t.Admits moving a place := by
  have hsisters : (t.root = some a ∧ ∃ e, t.sisterIndex a moving = .error e) ∨
      (t.root ≠ some a ∧ ∃ p i, t.parent a = some p ∧ t.sisterIndex a moving = .ok (p, i) ∧
        (t.childrenBut p moving)[i]? = some a) := by
    cases hp : t.parent a with
    | none => exact .inl ⟨h.root_of_parent_none ha hp, _, by rw [sisterIndex, hp]⟩
    | some p =>
      have hroot : t.root ≠ some a := fun hr => by
        rw [h.root_top a hr] at hp
        exact absurd hp (by simp)
      obtain ⟨i, hi, hget⟩ := h.sisterIndex_of_parent hp hmoving
      exact .inr ⟨hroot, p, i, rfl, hi, hget⟩
  unfold locate
  rw [ha, Bool.not_true, if_neg Bool.false_ne_true]
  cases place with
  | leftOf n =>
    dsimp only
    rcases hsisters with ⟨hroot, e, he⟩ | ⟨hroot, p, i, hp, hi, hget⟩
    · rw [he]
      exact fun hadmits => hadmits hroot
    · rw [hi]
      exact ⟨hroot, .single hp, hget⟩
  | rightOf n =>
    dsimp only
    rcases hsisters with ⟨hroot, e, he⟩ | ⟨hroot, p, i, hp, hi, hget⟩
    · rw [he]
      exact fun hadmits => hadmits hroot
    · rw [hi]
      exact ⟨hroot, .single hp, i, hget, rfl⟩
  | child n position =>
    dsimp only
    generalize hk : (t.childrenBut a moving).length = k
    generalize hindex : (if position > 0 then position - 1 else (k : Int) + 1 + position) = index
    have hside : (0 < position ∧ index = position - 1) ∨
        (position ≤ 0 ∧ index = k + 1 + position) := by
      split at hindex <;> omega
    rw [Admits, hk]
    by_cases hrange : 0 ≤ index ∧ index ≤ k
    · rw [if_pos (by simpa using hrange)]
      refine ⟨by omega, .refl, rfl, ?_, ?_⟩
      · rw [hk]
        omega
      · rw [hk]
        omega
    · rw [if_neg (by simpa using hrange)]
      omega

theorem WellFormed.checkMove_spec (h : t.WellFormed) (x a : NodeId) :
    match t.checkMove x a with
    | .ok () => t.root ≠ some x ∧ ¬ t.AtOrUnder a x
    | .error _ => ¬ (t.root ≠ some x ∧ ¬ t.AtOrUnder a x) := by
  unfold checkMove
  by_cases hroot : t.root = some x
  · rw [isRoot, if_pos (beq_iff_eq.mpr hroot)]
    exact fun hx => hx.1 hroot
  · rw [isRoot, if_neg (by simpa using hroot)]
    have hup : (a == x || t.dominates x a) = true ↔ t.AtOrUnder a x := by
      rw [Bool.or_eq_true, beq_iff_eq, h.dominates_iff, AtOrUnder,
        Relation.reflTransGen_iff_eq_or_transGen]
      exact or_congr_left eq_comm
    by_cases ha : t.AtOrUnder a x
    · rw [if_pos (hup.mpr ha)]
      exact fun hx => hx.2 ha
    · rw [if_neg (mt hup.mp ha)]
      exact ⟨hroot, ha⟩

/-! ## What stands at the place -/

/-- **A node that is inserted at a place stands in the relation of the place.** -/
theorem holds_of_isAt {rest : List NodeId} (marks : Marks) (b : Bindings)
    (hat : place.IsAt rest p a i) (hchildren : u.children p = rest.insertIdx i x) :
    place.relation.Holds u marks b x a := by
  have hself : u.ChildAt p i x := by
    rw [ChildAt, hchildren, List.getElem?_insertIdx_self, if_pos hat.le]
  cases place with
  | leftOf n =>
    refine ⟨p, i, hself, ?_⟩
    rw [ChildAt, hchildren, List.getElem?_insertIdx_of_gt (Nat.lt_succ_self i)]
    exact hat
  | rightOf n =>
    obtain ⟨j, hj, rfl⟩ := hat
    refine ⟨p, j, ?_, hself⟩
    rw [ChildAt, hchildren, List.getElem?_insertIdx_of_lt (Nat.lt_succ_self j)]
    exact hj
  | child n position =>
    obtain ⟨rfl, hle, hposition⟩ := hat
    refine ⟨i, hself, hposition.imp_right fun hn => ?_⟩
    rw [hn, hchildren, List.length_insertIdx_of_le_length hle]

/-- What it is for `x` to have come to a place given by `a`, in a tree that was `t`: it stands in
the relation of the place, and all other nodes have kept their labels and their order. -/
structure Placed (t u : Tree) (place : Place) (a x : NodeId) : Prop where
  related : ∀ (marks : Marks) (b : Bindings),
    a ∈ place.relation.candidates ⟨u, Index.build u, marks⟩ b x
  label : ∀ n, n < t.nodes.size → u.label n = t.label n
  children : ∀ n, n < t.nodes.size →
    (u.children n).filter (· != x) = (t.children n).filter (· != x)

theorem filter_insertIdx_self (cs : List NodeId) (i : Nat) (x : NodeId) :
    (cs.insertIdx i x).filter (· != x) = cs.filter (· != x) := by
  induction cs generalizing i with
  | nil => cases i <;> simp
  | cons c cs ih => cases i <;> simp [List.filter_cons, ih]

/-- A node comes to a place by being inserted, at the index of the place, among the children that
are left. -/
theorem WellFormed.placed (ht : t.WellFormed) (hu : u.WellFormed) (hroot : u.root = t.root)
    (ha : t.isAttached a = true) (hax : ¬ t.AtOrUnder a x) (hup : t.AtOrUnder a p)
    (hat : place.IsAt ((t.children p).filter (· != x)) p a i)
    (hlabel : ∀ n, n < t.nodes.size → u.label n = t.label n)
    (hchildren : ∀ n, n < t.nodes.size → u.children n =
      if n = p then ((t.children p).filter (· != x)).insertIdx i x
      else (t.children n).filter (· != x)) : Placed t u place a x := by
  have hp : t.isAttached p = true :=
    ht.isAttached_above ha hup
  have hpchildren := hchildren p (ht.lt_size_of_isAttached hp)
  rw [if_pos rfl] at hpchildren
  have hattached : ∀ n, t.isAttached n = true → ¬ t.AtOrUnder n x → u.isAttached n = true := by
    intro n hn hnx
    refine ht.isAttached_of_kept hu hroot hn fun c q hc hmem => ?_
    have hleft : c ∈ (t.children q).filter (· != x) :=
      List.mem_filter.mpr ⟨hmem, bne_iff_ne.mpr fun hcx => hnx (hcx ▸ hc)⟩
    rw [hchildren q (lt_size_of_mem_children hmem)]
    split
    · rename_i hqp
      rw [List.mem_insertIdx hat.le]
      exact .inr (hqp ▸ hleft)
    · exact hleft
  have hx : u.isAttached x = true := by
    have hmem : x ∈ u.children p := by
      rw [hpchildren, List.mem_insertIdx hat.le]
      exact .inl rfl
    rw [hu.isAttached_of_parent ((hu.mem_children_iff p x).mp hmem)]
    exact hattached p hp fun hpx => hax (hup.trans hpx)
  refine ⟨fun marks b => ?_, hlabel, fun n hn => ?_⟩
  · refine (Relation.mem_candidates_iff hu (hu.mem_attached_iff.mpr hx)
      (hu.mem_attached_iff.mpr (hattached a ha hax)) _).mpr ?_
    exact holds_of_isAt marks b hat hpchildren
  · rw [hchildren n hn]
    split
    · rename_i hnp
      rw [filter_insertIdx_self, List.filter_filter, hnp]
      simp only [Bool.and_self]
    · rw [List.filter_filter]
      simp only [Bool.and_self]

/-- **A move within the attached part keeps it together.** -/
theorem WellFormed.isAttached_of_moved (ht : t.WellFormed) (hu : u.WellFormed)
    (hroot : u.root = t.root) (hp : t.isAttached p = true) (hx : t.isAttached x = true)
    (hnotRoot : t.root ≠ some x) (hi : i ≤ ((t.children p).filter (· != x)).length)
    (hchildren : ∀ n, u.children n =
      if n = p then ((t.children p).filter (· != x)).insertIdx i x
      else (t.children n).filter (· != x)) (n : NodeId) : u.isAttached n = t.isAttached n := by
  have hmem : ∀ q c, c ∈ u.children q ↔ (c = x ∧ q = p) ∨ (c ≠ x ∧ c ∈ t.children q) := by
    intro q c
    rw [hchildren]
    by_cases hq : q = p
    · rw [if_pos hq, List.mem_insertIdx hi, List.mem_filter, bne_iff_ne, hq]
      by_cases hc : c = x <;> simp [hc]
    · rw [if_neg hq, List.mem_filter, bne_iff_ne]
      simp [hq, and_comm]
  have hkept : ∀ n, t.isAttached n = true → u.isAttached n = true := by
    intro n hn
    refine hu.isAttached_of_supported (fun n => t.isAttached n = true) ?_ hn
    intro m hm
    cases hq : t.parent m with
    | none => exact .inl (hroot.trans (ht.root_of_parent_none hm hq))
    | some q =>
      by_cases hmx : m = x
      · exact .inr ⟨p, hp, (hmem p m).mpr (.inl ⟨hmx, rfl⟩)⟩
      · refine .inr ⟨q, ?_, (hmem q m).mpr (.inr ⟨hmx, (ht.mem_children_iff q m).mpr hq⟩)⟩
        rwa [← ht.isAttached_of_parent hq]
  rw [Bool.eq_iff_iff]
  refine ⟨fun hn => ?_, hkept n⟩
  refine ht.isAttached_of_supported (fun n => u.isAttached n = true) ?_ hn
  intro m hm
  by_cases hmx : m = x
  · -- the moved node hung below a node that is still attached
    cases hq : t.parent x with
    | none => exact absurd (ht.root_of_parent_none hx hq) hnotRoot
    | some q =>
      have hqattached : t.isAttached q = true := by rwa [← ht.isAttached_of_parent hq]
      exact .inr ⟨q, hkept q hqattached, hmx ▸ (ht.mem_children_iff q x).mpr hq⟩
  · cases hq : u.parent m with
    | none => exact .inl (hroot ▸ hu.root_of_parent_none hm hq)
    | some q =>
      rcases (hmem q m).mp ((hu.mem_children_iff q m).mpr hq) with ⟨hm', _⟩ | ⟨_, hmq⟩
      · exact absurd hm' hmx
      · refine .inr ⟨q, ?_, hmq⟩
        rwa [← hu.isAttached_of_parent hq]

/-! ## Inserting and moving in a tree -/

/-- **Inserting the root of a new tree** where it can be found again as it was made. -/
theorem WellFormed.insertChild_graft (h : t.WellFormed) (c : Constituent) (hp : p < t.nodes.size)
    (hi : i ≤ (t.children p).length) :
    ∃ u, (((t.graft c).1.insertChild p i t.nodes.size).1 = u ∧ u.WellFormed) ∧ u.root = t.root ∧
      (∀ n, n < t.nodes.size → u.label n = t.label n) ∧
      (∀ n, n < t.nodes.size → u.children n =
        if n = p then ((t.children p).filter (· != t.nodes.size)).insertIdx i t.nodes.size
        else (t.children n).filter (· != t.nodes.size)) ∧
      u.constituent t.nodes.size = c := by
  have hready := ready_graft h c hp
  have hpg : p < (t.graft c).1.nodes.size := by
    rw [size_graft]
    exact Nat.lt_add_right _ hp
  have hmoved := (h.graft c).rearranged_insertChild hpg hready i
  -- the new node is in no list, so that nothing leaves one
  have hold : ∀ n, (t.children n).filter (· != t.nodes.size) = t.children n := fun n =>
    List.filter_eq_self.mpr fun m hm => bne_iff_ne.mpr (Nat.ne_of_lt (h.child_lt_size hm))
  refine ⟨_, ⟨rfl, hmoved.wellFormed⟩, hmoved.root, fun n hn => ?_, fun n hn => ?_, ?_⟩
  · rw [hmoved.label, label_graft t c hn]
  · rw [hmoved.children, Function.update_apply, children_graft t c hn, children_graft t c hp,
      Nat.min_eq_left hi, hold, hold]
  · -- below the new node nothing has changed
    have hbelow := (h.graft c).below_congr (n := t.nodes.size) hmoved.wellFormed fun m hm => by
      rw [hmoved.children, Function.update_apply, if_neg]
      rintro rfl
      exact WellFormed.ne_of_ready hready hm rfl
    rw [constituent, hbelow, funext hmoved.label]
    exact constituent_graft t c

/-- A node that has left its place can move below an attached node that it was not above. -/
theorem WellFormed.ready_detach (h : t.WellFormed) (hx : x < t.nodes.size) (hroot : t.root ≠ some x)
    (hp : t.isAttached p = true) (hpx : ¬ t.AtOrUnder p x) : (t.detach x).Ready p x := by
  have htaken := h.rearranged_detach hroot
  have hloose : (t.detach x).Loose x :=
    ⟨by rwa [htaken.size], parent_detach_self _ x, by rwa [htaken.root]⟩
  refine htaken.wellFormed.ready_of_isAttached ?_ hloose
  refine h.isAttached_of_kept htaken.wellFormed htaken.root hp fun c q hc hmem => ?_
  rw [htaken.children]
  exact List.mem_filter.mpr ⟨hmem, bne_iff_ne.mpr fun hcx => hpx (hcx ▸ hc)⟩

/-- **Moving a node** below an attached one. -/
theorem WellFormed.rearranged_move (h : t.WellFormed) (hx : x < t.nodes.size)
    (hroot : t.root ≠ some x) (hp : t.isAttached p = true) (hpx : ¬ t.AtOrUnder p x)
    (hi : i ≤ ((t.children p).filter (· != x)).length) :
    Rearranged t ((t.detach x).insertChild p i x).1 t.root fun n =>
      if n = p then ((t.children p).filter (· != x)).insertIdx i x
      else (t.children n).filter (· != x) := by
  have htaken := h.rearranged_detach hroot
  have hpknown : p < (t.detach x).nodes.size := by
    rw [htaken.size]
    exact h.lt_size_of_isAttached hp
  have hmoved := htaken.wellFormed.rearranged_insertChild hpknown (h.ready_detach hx hroot hp hpx) i
  have hall := htaken.trans hmoved
  refine ⟨hall.wellFormed, hall.size, hall.root.trans htaken.root, hall.label, fun n => ?_⟩
  rw [hall.children, Function.update_apply, htaken.children, htaken.children, Nat.min_eq_left hi]

end Tree

/-! ## The two operations -/

namespace Step

open Surgery

variable {s : Surgery} {place : Place} {a x : NodeId}

theorem ends_make {β : Type} {operand : Operand} {c : Constituent} {f : NodeId → Step β}
    {after : β → Surgery → Prop} {failed : Obstacle → Surgery → Prop}
    (hc : operand.constituent s = .ok c)
    (hf : ∀ u : Surgery, u.tree = (s.tree.graft c).1 → Ends (f s.tree.nodes.size) u after failed) :
    Ends (make operand >>= f) s after failed := by
  have hmade : Ends (make operand) s
      (fun id u => id = s.tree.nodes.size ∧ u.tree = (s.tree.graft c).1) failed := by
    cases operand with
    | copyOf name =>
      refine Ends.get_bind ?_
      rw [show s.fetchConstituent name = .ok c from hc]
      exact ⟨rfl, rfl⟩
    | made template =>
      rw [Operand.constituent] at hc
      cases htree : template.tree with
      | none =>
        rw [htree] at hc
        exact absurd hc (by simp)
      | some slots =>
        rw [htree] at hc
        dsimp only at hc
        cases hfill : slots.fill s.fetchConstituent with
        | error e =>
          rw [hfill] at hc
          exact absurd hc (by simp [Except.map])
        | ok filled =>
          rw [hfill] at hc
          obtain rfl := Except.ok.inj hc
          exact ends_instantiate htree hfill ⟨rfl, rfl⟩
  refine hmade.bind ?_ fun _ _ h => h
  rintro _ u ⟨rfl, hu⟩
  exact hf u hu

/-- What an operand asks for is all that is needed to make it, unless it is an empty template. -/
theorem constituent_eq_ok {operand : Operand} (hasked : s.Resolves operand.askedNames)
    (hne : ∀ template, operand = .made template → template.tree ≠ none) :
    ∃ c, operand.constituent s = .ok c := by
  cases operand with
  | copyOf name =>
    obtain ⟨id, hid⟩ := hasked name (List.mem_singleton_self name)
    exact ⟨_, fetchConstituent_eq_ok_iff.mpr ⟨_, hid, rfl⟩⟩
  | made template =>
    cases htree : template.tree with
    | none => exact absurd htree (hne template rfl)
    | some slots =>
      obtain ⟨filled, hfill⟩ := Resolves.fill hasked htree
      refine ⟨filled.map Prod.fst, ?_⟩
      rw [Operand.constituent, htree]
      dsimp only
      rw [hfill]
      rfl

/-- **Inserting at a place that there is.** -/
theorem ends_insert (h : s.tree.WellFormed) {operand : Operand} {c : Constituent}
    (hc : operand.constituent s = .ok c) (hanchor : s.fetch place.anchor = .ok a)
    (ha : s.tree.isAttached a = true) (hadmits : s.tree.Admits none a place) :
    Ends (do
      let anchor ← fetch place.anchor
      let (parent, index) ← ask (·.locate place anchor none)
      let id ← make operand
      edit (.insert parent index id)) s
      (fun _ u => Placed s.tree u.tree place a s.tree.nodes.size ∧
        u.tree.constituent s.tree.nodes.size = c) fun _ _ => False := by
  have hspec := h.locate_spec place ha (by simp : none ≠ some a)
  cases hlocate : s.tree.locate place a none with
  | error e =>
    rw [hlocate] at hspec
    exact absurd hadmits hspec
  | ok found =>
    obtain ⟨p, i⟩ := found
    rw [hlocate] at hspec
    obtain ⟨_, hup, hat⟩ := hspec
    rw [childrenBut_none] at hat
    have hp := h.lt_size_of_isAttached (h.isAttached_above ha hup)
    obtain ⟨v, ⟨hv, hwf⟩, hroot, hlabel, hchildren, hmade⟩ := h.insertChild_graft c hp hat.le
    have hnew : ¬ s.tree.AtOrUnder a s.tree.nodes.size := by
      intro hup
      rcases Relation.reflTransGen_iff_eq_or_transGen.mp hup with heq | hup
      · exact Nat.lt_irrefl _ (heq ▸ h.lt_size_of_isAttached ha)
      · exact Nat.lt_irrefl _ (h.under_lt_size hup)
    have hleft : (s.tree.children p).filter (· != s.tree.nodes.size) = s.tree.children p :=
      List.filter_eq_self.mpr fun m hm => bne_iff_ne.mpr (Nat.ne_of_lt (h.child_lt_size hm))
    refine ends_fetch hanchor (ends_ask hlocate (ends_make hc fun u hu => ?_))
    rw [← hu] at hv
    refine ends_last_edit (Edit.ends_perform (Edit.isKnown_insertChild ?_ ?_ i) ?_)
    · rw [hu, size_graft]
      exact Nat.lt_add_right _ hp
    · rw [hu]
      exact (ready_graft h c hp).known
    · show Placed s.tree (u.tree.insertChild p i s.tree.nodes.size).1 place a _ ∧ _
      rw [hv]
      exact ⟨h.placed hwf hroot ha hnew hup (hleft.symm ▸ hat) hlabel hchildren, hv ▸ hmade⟩

/-- **Moving to a place that there is.** -/
theorem ends_move (h : s.tree.WellFormed) {name : String} (hx : s.fetch name = .ok x)
    (hanchor : s.fetch place.anchor = .ok a) (ha : s.tree.isAttached a = true)
    (hcheck : s.tree.checkMove x a = .ok ()) (hadmits : s.tree.Admits (some x) a place) :
    Ends (do
      let id ← fetch name
      let anchor ← fetch place.anchor
      ask (·.checkMove id anchor)
      let (parent, index) ← ask (·.locate place anchor (some id))
      edit (.move id parent index)) s
      (fun _ u => Placed s.tree u.tree place a x ∧ u.tree.nodes.size = s.tree.nodes.size ∧
        u.tree.below x = s.tree.below x ∧
        (s.tree.isAttached x = true → ∀ n, u.tree.isAttached n = s.tree.isAttached n))
      fun _ _ => False := by
  have hmay := h.checkMove_spec x a
  rw [hcheck] at hmay
  obtain ⟨hroot, hax⟩ := hmay
  have hspec := h.locate_spec place ha fun heq : some x = some a =>
    hax (Option.some.inj heq ▸ .refl)
  cases hlocate : s.tree.locate place a (some x) with
  | error e =>
    rw [hlocate] at hspec
    exact absurd hadmits hspec
  | ok found =>
    obtain ⟨p, i⟩ := found
    rw [hlocate] at hspec
    obtain ⟨_, hup, hat⟩ := hspec
    rw [childrenBut_some] at hat
    have hpx : ¬ s.tree.AtOrUnder p x := fun hp => hax (hup.trans hp)
    have hp := h.isAttached_above ha hup
    have hknown := (fetch_eq_ok_iff.mp hx).2
    have hmoved := h.rearranged_move hknown hroot hp hpx hat.le
    have hready := h.ready_detach hknown hroot hp hpx
    have hstep : Ends (Edit.detach x) s.tree (fun _ u => u = s.tree.detach x) fun _ _ => False :=
      Edit.ends_perform (r := .detach x) (contains_eq_true.mpr hknown) rfl
    refine ends_fetch hx (ends_fetch hanchor (ends_ask hcheck (ends_ask hlocate
      (ends_last_edit (hstep.bind ?_ fun _ _ h => h)))))
    rintro _ _ rfl
    refine Edit.ends_perform (Edit.isKnown_insertChild ?_ hready.known i) ?_
    · rw [size_detach]
      exact h.lt_size_of_isAttached hp
    · refine ⟨h.placed hmoved.wellFormed hmoved.root ha hax hup hat (fun n _ => hmoved.label n)
        fun n _ => hmoved.children n, hmoved.size, ?_, fun hxattached => ?_⟩
      · refine h.below_congr hmoved.wellFormed fun m hm => (hmoved.children m).trans ?_
        -- neither the new parent nor the old one is at or below the moved node
        rw [if_neg fun hmp : m = p => hpx (hmp ▸ hm)]
        refine List.filter_eq_self.mpr fun c hc => bne_iff_ne.mpr ?_
        rintro rfl
        exact h.not_mem_children_of_atOrUnder hm hc
      · exact h.isAttached_of_moved hmoved.wellFormed hmoved.root hp hxattached hroot hat.le
          hmoved.children

end Step

namespace Operation

open Surgery

variable {s : Surgery}

/-- Where there is no place, the index of the place is not found. -/
theorem locate_eq_error (h : s.tree.WellFormed) {moving : Option NodeId} {place : Place}
    {a : NodeId} (ha : s.tree.isAttached a = true) (hmoving : moving ≠ some a)
    (hadmits : ¬ s.tree.Admits moving a place) :
    ∃ e, s.tree.locate place a moving = .error e := by
  have hspec := h.locate_spec place ha hmoving
  cases hlocate : s.tree.locate place a moving with
  | error e => exact ⟨e, rfl⟩
  | ok found =>
    rw [hlocate] at hspec
    exact absurd hspec.1 hadmits

theorem insert_spec (h : s.tree.WellFormed) (marks : Marks) {operand : Operand} {place : Place}
    {a : NodeId} (hanchor : s.fetch place.anchor = .ok a) (ha : s.tree.isAttached a = true)
    (hasked : s.Resolves operand.askedNames)
    (hne : ∀ template, operand = .made template → template.tree ≠ none) :
    (s.tree.Admits none a place ∧ ∃ u, (insert operand place).run marks s = (u, []) ∧
      Placed s.tree u.tree place a s.tree.nodes.size ∧
      operand.constituent s = .ok (u.tree.constituent s.tree.nodes.size)) ∨
    (¬ s.tree.Admits none a place ∧ ((insert operand place).run marks s).2 ≠ []) := by
  by_cases hadmits : s.tree.Admits none a place
  · obtain ⟨c, hc⟩ := Step.constituent_eq_ok hasked hne
    obtain ⟨u, hrun, hplaced, hmade⟩ := attempt_of_ends "insert"
      (Step.ends_insert h hc hanchor ha hadmits)
    exact .inl ⟨hadmits, u, hrun, hplaced, hmade ▸ hc⟩
  · obtain ⟨e, he⟩ := locate_eq_error h ha (by simp) hadmits
    exact .inr ⟨hadmits, attempt_ne_nil_of_ends "insert"
      (Step.ends_fetch hanchor (Step.ends_ask_error he trivial))⟩

theorem move_spec (h : s.tree.WellFormed) (marks : Marks) {name : String} {place : Place}
    {a x : NodeId} (hanchor : s.fetch place.anchor = .ok a) (ha : s.tree.isAttached a = true)
    (hx : s.fetch name = .ok x) :
    ((s.tree.root ≠ some x ∧ ¬ s.tree.AtOrUnder a x ∧ s.tree.Admits (some x) a place) ∧
      ∃ u, (move name place).run marks s = (u, []) ∧ Placed s.tree u.tree place a x ∧
        u.tree.nodes.size = s.tree.nodes.size ∧ u.tree.below x = s.tree.below x ∧
        (s.tree.isAttached x = true → ∀ n, u.tree.isAttached n = s.tree.isAttached n)) ∨
    (¬ (s.tree.root ≠ some x ∧ ¬ s.tree.AtOrUnder a x ∧ s.tree.Admits (some x) a place) ∧
      ((move name place).run marks s).2 ≠ []) := by
  have hcheck := h.checkMove_spec x a
  cases hc : s.tree.checkMove x a with
  | error e =>
    rw [hc] at hcheck
    exact .inr ⟨fun hall => hcheck ⟨hall.1, hall.2.1⟩, attempt_ne_nil_of_ends "move"
      (Step.ends_fetch hx (Step.ends_fetch hanchor (Step.ends_ask_error hc trivial)))⟩
  | ok checked =>
    rw [hc] at hcheck
    obtain ⟨hroot, hax⟩ := hcheck
    by_cases hadmits : s.tree.Admits (some x) a place
    · obtain ⟨u, hrun, hmoved⟩ := attempt_of_ends "move"
        (Step.ends_move h hx hanchor ha hc hadmits)
      exact .inl ⟨⟨hroot, hax, hadmits⟩, u, hrun, hmoved⟩
    · obtain ⟨e, he⟩ := locate_eq_error h ha
        (fun heq : some x = some a => hax (Option.some.inj heq ▸ .refl)) hadmits
      exact .inr ⟨fun hall => hadmits hall.2.2, attempt_ne_nil_of_ends "move"
        (Step.ends_fetch hx (Step.ends_fetch hanchor (Step.ends_ask hc
          (Step.ends_ask_error he trivial))))⟩

/-- **When insertions and moves succeed, and what they come to.** Let a place be given by an
attached node `a`. An insertion there, of an operand whose names have nodes and which is not an
empty template, is reported exactly if there is no such place; and a move, of a node `x`, if there
is no such place without `x`, if `x` is the root or if `a` is `x` or below it. Where nothing is
reported, the new node, or the moved one, stands to `a` in the relation of the place, and all other
children have kept their order. A move keeps the node with all that is below it, copies nothing, and
moves an attached node within the attached part. -/
theorem insert_move_iff (h : s.tree.WellFormed) (marks : Marks) {place : Place} {a : NodeId}
    (hanchor : s.fetch place.anchor = .ok a) (hattached : s.tree.isAttached a = true) :
    (∀ operand : Operand, s.Resolves operand.askedNames →
      (∀ template, operand = .made template → template.tree ≠ none) →
      let after := (insert operand place).run marks s
      (after.2 = [] ↔ s.tree.Admits none a place) ∧
        (after.2 = [] → Placed s.tree after.1.tree place a s.tree.nodes.size ∧
          operand.constituent s = .ok (after.1.tree.constituent s.tree.nodes.size))) ∧
    ∀ (name : String) (x : NodeId), s.fetch name = .ok x →
      let after := (move name place).run marks s
      (after.2 = [] ↔
        s.tree.root ≠ some x ∧ ¬ s.tree.AtOrUnder a x ∧ s.tree.Admits (some x) a place) ∧
        (after.2 = [] → Placed s.tree after.1.tree place a x ∧
          after.1.tree.nodes.size = s.tree.nodes.size ∧
          after.1.tree.below x = s.tree.below x ∧
          (s.tree.isAttached x = true → ∀ n, n ∈ after.1.tree.attached ↔ n ∈ s.tree.attached)) := by
  constructor
  · intro operand hasked hne after
    rcases insert_spec h marks hanchor hattached hasked hne with ⟨hadmits, u, hrun, hdone⟩ |
      ⟨hadmits, hreported⟩
    · have hafter : after = (u, []) := hrun
      rw [hafter]
      exact ⟨⟨fun _ => hadmits, fun _ => rfl⟩, fun _ => hdone⟩
    · exact ⟨⟨fun hnone => absurd hnone hreported, fun hplace => absurd hplace hadmits⟩,
        fun hnone => absurd hnone hreported⟩
  · intro name x hx after
    have hu : after.1.tree.WellFormed := (runAs_ran "move" marks (move name place) h).wellFormed h
    rcases move_spec h marks hanchor hattached hx with
      ⟨hadmits, u, hrun, hplaced, hsize, hbelow, hsame⟩ | ⟨hadmits, hreported⟩
    · have hafter : after = (u, []) := hrun
      rw [hafter] at hu ⊢
      refine ⟨⟨fun _ => hadmits, fun _ => rfl⟩, fun _ => ⟨hplaced, hsize, hbelow, fun hxa n => ?_⟩⟩
      rw [hu.mem_attached_iff, h.mem_attached_iff, hsame hxa]
    · exact ⟨⟨fun hnone => absurd hnone hreported, fun hall => absurd hall hadmits⟩,
        fun hnone => absurd hnone hreported⟩

/-- In `(S a b c)` the first child moves behind the last one, its index counted without it. -/
theorem insert_move_iff_behind_last :
    let t := Tree.ofConstituent (some (.node "S" [.node "a" [], .node "b" [], .node "c" []]))
    let s : Surgery := ⟨t, ⟨0, [some 0, some 1, some 3], ["s", "a", "c"]⟩, []⟩
    let after := (move "a" (.rightOf "c")).run [] s
    s.fetch "c" = .ok 3 ∧ t.isAttached 3 = true ∧ after.2 = [] ∧
      after.1.tree.children 0 = [2, 3, 1] ∧
      3 ∈ Relation.immediateRightSisterOf.candidates
        ⟨after.1.tree, Index.build after.1.tree, []⟩ [] 1 := by
  intro t s after
  have h : t.WellFormed := wellFormed_ofConstituent _
  have hanchor : s.fetch (Place.rightOf "c").anchor = .ok 3 := rfl
  have hattached : t.isAttached 3 = true := by decide +kernel
  have hmove := (insert_move_iff h [] hanchor hattached).2 "a" 1 rfl
  have hinside : ¬ t.AtOrUnder 3 1 := by
    rw [← h.mem_preorder_iff]
    decide +kernel
  have hroot : t.root ≠ some 1 := by decide
  have hthere : t.root ≠ some 3 := by decide
  have hdone : after.2 = [] := hmove.1.mpr ⟨hroot, hinside, hthere⟩
  exact ⟨hanchor, hattached, hdone, by decide +kernel, (hmove.2 hdone).1.related [] []⟩

end Operation

end Constituency
