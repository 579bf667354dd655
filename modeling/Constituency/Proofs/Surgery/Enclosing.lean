import Constituency.Proofs.Surgery.Replacing
import Constituency.Proofs.Surgery.Templates

/-!
# Enclosing sisters, and excising what encloses them

`createSubtree` puts the root of a detached tree in the place of a span of sisters and the span
below its foot; `excise` takes the children of the foot and puts them in the place of the root.
After the first half of the first operation the new tree stands where the span stood, and the span
is loose (`Enclosed`). The second half and the first half of the other operation move the span to
the foot and away from it again; then the span goes back.

A single node is enclosed like a span of one, except that it may be the root.
-/

namespace Constituency

open Constituency.Tree

/-- A detached tree has come to the place of a span of sisters, which is loose now. What is said of
the root and of the children is that they will be as in `t` when the span is put in the place of the
detached tree again. -/
structure Enclosed (t u : Tree) (span : List NodeId) (root foot : NodeId) : Prop where
  wellFormed : u.WellFormed
  size : u.nodes.size = t.nodes.size
  label : ∀ n, u.label n = t.label n
  root_attached : u.isAttached root = true
  foot_below : u.AtOrUnder foot root
  nodup : span.Nodup
  loose : ∀ c ∈ span, u.Loose c
  single : u.root = some root → span.length = 1
  root_back : (if u.root = some root then span.head? else u.root) = t.root
  children_back : ∀ q, t.isAttached q = true → inPlaceOf root span (u.children q) = t.children q

namespace Tree

variable {t u : Tree} {root foot id p : NodeId} {span before after : List NodeId}

/-- Below a loose node no node is attached. -/
theorem WellFormed.not_isAttached_below (h : t.WellFormed) (hroot : t.Loose root)
    (hfoot : t.AtOrUnder foot root) : t.isAttached foot = false := by
  have hdetached := h.not_isAttached_of_loose hroot
  rwa [isAttached, h.summit_eq hroot.free hfoot, ← h.summit_of_parent_none hroot.free]

/-- The way up to the top of a detached tree is kept while children of attached nodes change. -/
theorem WellFormed.below_loose_kept (ht : t.WellFormed) (hu : u.WellFormed) (hroot : t.Loose root)
    (hfoot : t.AtOrUnder foot root)
    (hkept : ∀ a b, t.isAttached a = false → a ∈ t.children b → a ∈ u.children b) :
    u.AtOrUnder foot root := by
  refine ht.atOrUnder_of_kept hu hfoot fun a b ha _ hmem => hkept a b ?_ hmem
  rw [Bool.eq_false_iff]
  intro hattached
  have hdown := ht.isAttached_of_atOrUnder hattached ha
  rw [ht.not_isAttached_below hroot hfoot] at hdown
  exact absurd hdown Bool.false_ne_true

variable (h : t.WellFormed) (hroot : t.Loose root) (hfoot : t.AtOrUnder foot root)

include h hroot hfoot

/-- One node, which may be the root, gives its place to a detached tree. -/
theorem WellFormed.enclosed_node (hid : t.isAttached id = true)
    (hu : Rearranged t u (if t.root = some id then [root].head? else t.root)
      (fun q => inPlaceOf id [root] (t.children q)))
    (hattached : u.isAttached root = true) : Enclosed t u [id] root foot := by
  have hdetached := h.not_isAttached_of_loose hroot
  have hne : id ≠ root := by
    rintro rfl
    rw [hid] at hdetached
    exact absurd hdetached (by simp)
  have hnot : ∀ q, root ∉ t.children q := h.parent_eq_none_iff.mp hroot.free
  refine ⟨hu.wellFormed, hu.size, hu.label, hattached, ?_, List.nodup_singleton id, ?_,
    fun _ => rfl, ?_, fun q _ => ?_⟩
  · refine h.below_loose_kept hu.wellFormed hroot hfoot fun a b ha hmem => ?_
    rw [hu.children, mem_inPlaceOf]
    refine .inl ⟨hmem, ?_⟩
    rintro rfl
    rw [hid] at ha
    exact absurd ha (by simp)
  · intro c hc
    obtain rfl := List.mem_singleton.mp hc
    refine ⟨?_, hu.parent_eq_none fun q hmem => ?_, ?_⟩
    · rw [hu.size]
      exact h.lt_size_of_isAttached hid
    · rcases mem_inPlaceOf.mp hmem with ⟨_, hcc⟩ | ⟨_, hcr⟩
      · exact hcc rfl
      · exact hne (List.mem_singleton.mp hcr)
    · rw [hu.root]
      split
      · exact fun heq => hne (Option.some.inj heq).symm
      · assumption
  · rw [hu.root]
    by_cases hr : t.root = some id
    · rw [if_pos hr, List.head?_cons, if_pos rfl, hr]
      rfl
    · rw [if_neg hr, if_neg hroot.not_root]
  · rw [hu.children, inPlaceOf_inPlaceOf (hnot q), inPlaceOf_self]

omit hroot hfoot in
/-- A span of children is told apart from the sisters around it. -/
theorem WellFormed.span_apart (hsplit : t.children p = before ++ span ++ after) :
    span.Nodup ∧ ∀ c ∈ span, t.parent c = some p ∧ c ∉ before ∧ c ∉ after := by
  have hnodup := h.children_nodup p
  rw [hsplit, List.nodup_append, List.nodup_append] at hnodup
  obtain ⟨⟨_, hspan, hbefore⟩, _, hafter⟩ := hnodup
  refine ⟨hspan, fun c hc => ⟨(h.mem_children_iff p c).mp ?_, fun hb => ?_, fun ha => ?_⟩⟩
  · rw [hsplit]
    exact List.mem_append_left _ (List.mem_append_right _ hc)
  · exact hbefore c hb c hc rfl
  · exact hafter c (List.mem_append_right _ hc) c ha rfl

omit hfoot in
/-- Children that gave their place to another node are loose. -/
theorem WellFormed.loose_of_span (hsplit : t.children p = before ++ span ++ after)
    (hu : Rearranged t u t.root (Function.update t.children p (before ++ root :: after))) :
    ∀ c ∈ span, u.Loose c := by
  intro c hc
  obtain ⟨hlink, hb, ha⟩ := (h.span_apart hsplit).2 c hc
  refine ⟨?_, hu.parent_eq_none fun q hmem => ?_, ?_⟩
  · rw [hu.size]
    exact lt_size_of_parent hlink
  · rw [Function.update_apply] at hmem
    split at hmem
    · rw [List.mem_append, List.mem_cons] at hmem
      rcases hmem with hmem | rfl | hmem
      · exact hb hmem
      · rw [hroot.free] at hlink
        exact absurd hlink (by simp)
      · exact ha hmem
    · rename_i hq
      exact hq (Option.some.inj (((h.mem_children_iff q c).mp hmem).symm.trans hlink))
  · rw [hu.root]
    intro hr
    rw [h.root_top c hr] at hlink
    exact absurd hlink (by simp)

/-- Some of the children of an attached node give their place to a detached tree. -/
theorem WellFormed.enclosed_sisters (hp : t.isAttached p = true)
    (hsplit : t.children p = before ++ span ++ after)
    (hu : Rearranged t u t.root (Function.update t.children p (before ++ root :: after)))
    (hpu : u.isAttached p = true) : Enclosed t u span root foot := by
  have hnot : ∀ q, root ∉ t.children q := h.parent_eq_none_iff.mp hroot.free
  have hrootp := hnot p
  rw [hsplit] at hrootp
  simp only [List.mem_append, not_or] at hrootp
  refine ⟨hu.wellFormed, hu.size, hu.label, ?_, ?_, (h.span_apart hsplit).1,
    h.loose_of_span hroot hsplit hu, ?_, ?_, ?_⟩
  · have hlink : u.parent root = some p := by
      rw [← hu.mem_children_iff, Function.update_self]
      exact List.mem_append_right _ (List.mem_cons_self ..)
    rwa [hu.wellFormed.isAttached_of_parent hlink]
  · refine h.below_loose_kept hu.wellFormed hroot hfoot fun a b ha hmem => ?_
    rw [hu.children, Function.update_apply, if_neg]
    · exact hmem
    · rintro rfl
      rw [h.isAttached_of_parent ((h.mem_children_iff b a).mp hmem), hp] at ha
      exact absurd ha (by simp)
  · intro hr
    exact absurd (hu.root ▸ hr) hroot.not_root
  · rw [hu.root, if_neg hroot.not_root]
  · intro q _
    rw [hu.children, Function.update_apply]
    by_cases hq : q = p
    · rw [if_pos hq, inPlaceOf_middle hrootp.1.1 hrootp.2, hq, hsplit]
    · rw [if_neg hq, inPlaceOf_of_notMem (hnot q)]

end Tree

/-- A tree with the same attached part as another, labels included. -/
structure Restored (t v : Tree) : Prop where
  wellFormed : v.WellFormed
  root : v.root = t.root
  label : ∀ n, v.label n = t.label n
  children : ∀ q, t.isAttached q = true → v.children q = t.children q

namespace Edit

variable {t u : Tree} {root foot : NodeId} {span : List NodeId} {done : Unit → Tree → Prop}
  {failed : Refusal → Tree → Prop}

/-- Excising a part of the attached tree is taking the children of its lower end and putting them in
the place of its upper end. -/
theorem ends_excise (h : t.WellFormed) (hroot : t.isAttached root = true)
    (hfoot : t.AtOrUnder foot root) (hsingle : t.root = some root → (t.children foot).length = 1)
    (hdone : Ends (putInPlace root (t.children foot)) (t.replaceChildren foot []).1 done failed) :
    Ends (excise root foot) t done failed := by
  have hdominates : ¬ (root != foot && !t.dominates root foot) = true := by
    rcases Relation.reflTransGen_iff_eq_or_transGen.mp hfoot with heq | hunder
    · simp [heq]
    · simp [h.dominates_iff.mpr hunder]
  have hone : ¬ (t.isRoot root && (t.children foot).length != 1) = true := by
    intro hcheck
    rw [Bool.and_eq_true, isRoot, beq_iff_eq, bne_iff_ne] at hcheck
    exact hcheck.2 (hsingle hcheck.1)
  have htake : Ends (takeChildren foot) t
      (fun cs u => cs = t.children foot ∧ u = (t.replaceChildren foot []).1) failed :=
    ends_takeChildren (h.lt_size_of_isAttached (h.isAttached_of_atOrUnder hroot hfoot)) ⟨rfl, rfl⟩
  refine Ends.get_bind ?_
  rw [if_neg hdominates, if_neg (by simpa using hroot), if_neg hone]
  refine htake.bind ?_ fun _ _ h => h
  rintro _ _ ⟨rfl, rfl⟩
  exact hdone

/-- **Excising a detached tree that has taken in a span** puts the span back. -/
theorem ends_excise_enclosed (henc : Enclosed t u span root foot)
    (hfoot : t.isAttached foot = false) :
    Ends (excise root foot) (u.replaceChildren foot span).1 (fun _ v => Restored t v)
      fun _ _ => False := by
  have hwf := henc.wellFormed
  have hattached := hwf.isAttached_of_atOrUnder henc.root_attached henc.foot_below
  have hknown : foot < u.nodes.size := hwf.lt_size_of_isAttached hattached
  have hready : ∀ c ∈ span, c ∈ u.children foot ∨ u.Ready foot c := fun c hc =>
    .inr (hwf.ready_of_isAttached hattached (henc.loose c hc))
  have hv := hwf.rearranged_replaceChildren hknown henc.nodup hready
  obtain ⟨hvroot, hvfoot⟩ := hwf.above_replaceChildren hknown henc.nodup hready henc.foot_below
  rw [henc.root_attached] at hvroot
  generalize (u.replaceChildren foot span).1 = v at hv hvroot hvfoot
  have hspan : v.children foot = span := by
    rw [hv.children, Function.update_self]
  have hvknown : foot < v.nodes.size := by rwa [hv.size]
  have hnone : ∀ c ∈ ([] : List NodeId), c ∈ v.children foot ∨ v.Ready foot c := by simp
  have hw := hv.wellFormed.rearranged_replaceChildren hvknown List.nodup_nil hnone
  have hwroot := (hv.wellFormed.above_replaceChildren hvknown List.nodup_nil hnone hvfoot).1
  rw [hvroot] at hwroot
  refine ends_excise hv.wellFormed hvroot hvfoot ?_ ?_
  · rw [hv.root, hspan]
    exact henc.single
  rw [hspan]
  generalize (v.replaceChildren foot []).1 = w at hw hwroot
  -- between the two operations the span was at the foot and nothing else has changed
  have hroot : w.root = u.root := hw.root.trans hv.root
  have hchildren : ∀ q, w.children q = if q = foot then [] else u.children q := by
    intro q
    rw [hw.children, Function.update_apply, hv.children, Function.update_apply]
    split <;> rfl
  have hloose : ∀ c ∈ span, w.Loose c := fun c hc =>
    hv.wellFormed.loose_of_taken hw (hspan ▸ hc)
  refine ends_putInPlace_rearranged hw.wellFormed hwroot henc.nodup hloose ?_ fun x hx _ => ?_
  · rw [hroot]
    exact henc.single
  · refine ⟨hx.wellFormed, ?_, fun n => ?_, fun q hq => ?_⟩
    · rw [hx.root, hroot]
      exact henc.root_back
    · rw [hx.label, hw.label, hv.label, henc.label]
    · have hne : q ≠ foot := by
        rintro rfl
        rw [hq] at hfoot
        exact absurd hfoot (by simp)
      rw [hx.children, hchildren, if_neg hne]
      exact henc.children_back q hq

/-- What both ways to enclose nodes end with. -/
theorem ends_lower (henc : Enclosed t u span root foot) :
    Ends (replaceChildren foot span) u
      (fun _ v => ∃ u span, Enclosed t u span root foot ∧ v = (u.replaceChildren foot span).1)
      failed := by
  have hattached := henc.wellFormed.isAttached_of_atOrUnder henc.root_attached henc.foot_below
  exact ends_replaceChildren (henc.wellFormed.lt_size_of_isAttached hattached)
    (fun c hc => (henc.loose c hc).known) ⟨u, span, henc, rfl⟩

section enclose

variable {id : NodeId} (h : t.WellFormed) (hroot : t.Loose root) (hfoot : t.AtOrUnder foot root)

include h hroot hfoot

theorem ends_encloseNode (hid : t.isAttached id = true) :
    Ends (encloseNode id root foot) t
      (fun _ v => ∃ u span, Enclosed t u span root foot ∧ v = (u.replaceChildren foot span).1)
      failed := by
  have hfirst : Ends (putInPlace id [root]) t (fun _ u => Enclosed t u [id] root foot) failed :=
    ends_putInPlace_rearranged h hid (List.nodup_singleton root) (by simpa using hroot)
      (fun _ => rfl) fun u hu hattached =>
        h.enclosed_node hroot hfoot hid hu (hattached root (List.mem_singleton_self root))
  exact hfirst.bind (fun _ u henc => ends_lower henc) fun _ _ h => h

theorem ends_encloseSisters {s : SisterSpan} (hp : t.isAttached s.parent = true)
    (hspan : s.first ≤ s.last) :
    Ends (encloseSisters s root foot) t
      (fun _ v => ∃ u span, Enclosed t u span root foot ∧ v = (u.replaceChildren foot span).1)
      failed := by
  generalize hbefore : (t.children s.parent).take s.first = before
  generalize hafter : (t.children s.parent).drop (s.last + 1) = after
  generalize hsisters : ((t.children s.parent).drop s.first).take (s.last + 1 - s.first) = sisters
  have hsplit : t.children s.parent = before ++ sisters ++ after := by
    have hrest := List.take_append_drop (s.last + 1 - s.first) ((t.children s.parent).drop s.first)
    rw [List.drop_drop, hsisters, show s.first + (s.last + 1 - s.first) = s.last + 1 by omega,
      hafter] at hrest
    rw [List.append_assoc, hrest, ← hbefore, List.take_append_drop]
  have hone : ∀ n ∈ [root], t.Loose n := by simpa using hroot
  obtain ⟨hall, hready⟩ := h.ready_around hp hsplit (List.nodup_singleton root) hone
  rw [List.append_assoc, List.singleton_append] at hall hready
  have hknown := h.lt_size_of_isAttached hp
  refine Ends.get_bind ?_
  dsimp only
  rw [hbefore, hafter, hsisters]
  have hfirst : Ends (replaceChildren s.parent (before ++ root :: after)) t
      (fun _ u => Enclosed t u sisters root foot) failed :=
    ends_replaceChildren_rearranged h hknown hall hready fun u hu hr => by
      refine h.enclosed_sisters hroot hfoot hp hsplit hr ?_
      rw [hu, (h.above_replaceChildren hknown hall hready .refl).1, hp]
  exact hfirst.bind (fun _ u henc => ends_lower henc) fun _ _ h => h

end enclose

end Edit

/-- Sisters have a span. -/
theorem Tree.WellFormed.sistersBetween_eq_ok {t : Tree} (h : t.WellFormed) {a b p : NodeId}
    (ha : t.parent a = some p) (hb : t.parent b = some p) :
    ∃ s, t.sistersBetween a b = .ok s ∧ s.parent = p ∧ s.first ≤ s.last := by
  obtain ⟨i, hi⟩ := Option.isSome_iff_exists.mp (h.childIndex_isSome ha)
  obtain ⟨j, hj⟩ := Option.isSome_iff_exists.mp (h.childIndex_isSome hb)
  refine ⟨⟨p, min i j, max i j⟩, ?_, rfl, by dsimp only; omega⟩
  rw [sistersBetween, ha, hi, hj]
  dsimp only
  rw [hb, beq_self_eq_true, if_pos rfl]

/-- Nodes with a span have one parent. -/
theorem Tree.sisters_of_sistersBetween {t : Tree} {a b : NodeId} {span : SisterSpan}
    (h : t.sistersBetween a b = .ok span) : ∃ p, t.parent a = some p ∧ t.parent b = some p := by
  unfold sistersBetween at h
  split at h
  · rename_i p _ _ hp _ _
    split at h
    · rename_i hb
      exact ⟨p, hp, beq_iff_eq.mp hb⟩
    · exact absurd h (by simp)
  · exact absurd h (by simp)

namespace Step

open Surgery

variable {s : Surgery} {template : Template} {filled : Rose (Label × Option Slot)}
  {foot a : NodeId}

/-- What enclosing nodes comes to. -/
def EnclosedBy (s : Surgery) (filled : Rose (Label × Option Slot)) (foot : NodeId) (v : Surgery) :
    Prop :=
  ∃ u span, Enclosed (s.plant filled).tree u span s.tree.nodes.size foot ∧
    v = { s.plant filled with tree := (u.replaceChildren foot span).1 }

theorem ends_enclose (h : s.tree.WellFormed) (hinst : template.Instance s filled foot)
    (ha : s.tree.isAttached a = true) (last : Option NodeId)
    (hlast : ∀ b, last = some b → b = a ∨
      ∃ p, s.tree.parent a = some p ∧ s.tree.parent b = some p) :
    Ends (enclose template a last) s (fun _ v => EnclosedBy s filled foot v) fun _ _ => False := by
  obtain ⟨slots, htree, hfill⟩ := hinst.fill
  have hroot := h.loose_graft (filled.map Prod.fst)
  have hbelow := h.atOrUnder_graft (filled.map Prod.fst) hinst.foot_ge hinst.foot_lt
  have hgrown := Grown.single s.tree (filled.map Prod.fst)
  refine ends_require ha ?_
  cases hfilter : last.filter (· != a) with
  | none =>
    refine ends_instantiateWithFoot htree hfill hinst.foot_eq (ends_last_edit ?_)
    refine (Edit.ends_encloseNode (h.graft _) hroot hbelow ?_).mono ?_ fun _ _ h => h
    · rwa [hgrown.isAttached_eq h]
    · rintro _ _ ⟨u, span, henc, rfl⟩
      exact ⟨u, span, henc, rfl⟩
  | some b =>
    obtain ⟨hb, hne⟩ := Option.filter_eq_some_iff.mp hfilter
    obtain ⟨p, hpa, hpb⟩ := (hlast b hb).resolve_left (bne_iff_ne.mp hne)
    obtain ⟨span, hspan, hp, hle⟩ := h.sistersBetween_eq_ok hpa hpb
    refine ends_ask hspan (ends_instantiateWithFoot htree hfill hinst.foot_eq (ends_last_edit ?_))
    refine (Edit.ends_encloseSisters (h.graft _) hroot hbelow ?_ hle).mono ?_ fun _ _ h => h
    · rwa [hgrown.isAttached_eq h, hp, ← h.isAttached_of_parent hpa]
    · rintro _ _ ⟨u, span, henc, rfl⟩
      exact ⟨u, span, henc, rfl⟩

theorem ends_createSubtree (h : s.tree.WellFormed) (hinst : template.Instance s filled foot)
    {first : String} (hfirst : s.fetch first = .ok a) (ha : s.tree.isAttached a = true)
    (last : Option String) (hlast : ∀ name, last = some name → ∃ b, s.fetch name = .ok b ∧
      (b = a ∨ ∃ p, s.tree.parent a = some p ∧ s.tree.parent b = some p)) :
    Ends (do
      let first ← fetch first
      let last ← last.mapM fetch
      enclose template first last) s (fun _ v => EnclosedBy s filled foot v)
      fun _ _ => False := by
  refine ends_fetch hfirst ?_
  cases last with
  | none => exact ends_enclose h hinst ha none fun b hb => absurd hb (by simp)
  | some name =>
    obtain ⟨b, hb, hsisters⟩ := hlast name rfl
    have hfetched : Ends ((some name).mapM fetch) s (fun o u => o = some b ∧ u = s)
        fun _ _ => False :=
      ends_fetch hb ⟨rfl, rfl⟩
    refine hfetched.bind ?_ fun _ _ h => h
    rintro _ _ ⟨rfl, rfl⟩
    exact ends_enclose h hinst ha (some b) fun c hc => Option.some.inj hc ▸ hsisters

/-- The names that a template declares keep their nodes. -/
theorem fetch_of_enclosedBy {v : Surgery} (hv : EnclosedBy s filled foot v) {name : String}
    {id : NodeId} (hid : (s.plant filled).node? name = some id)
    (hknown : id < (s.plant filled).tree.nodes.size) : v.fetch name = .ok id := by
  obtain ⟨u, span, henc, rfl⟩ := hv
  have hattached := henc.wellFormed.isAttached_of_atOrUnder henc.root_attached henc.foot_below
  have hsize := size_replaceChildren henc.wellFormed
    (henc.wellFormed.lt_size_of_isAttached hattached) fun c hc => (henc.loose c hc).known
  rw [henc.size] at hsize
  exact fetch_eq_ok_iff.mpr ⟨hid, Nat.lt_of_lt_of_le hknown hsize⟩

end Step

namespace Operation

open Surgery

variable {s : Surgery}

/-- **Excising what has been enclosed restores the tree.** Let a template with a foot have the name
`r` on its root and `f` on its foot, which may be the same node, and let its holes be such that they
can be filled. If it encloses an attached node alone, or together with a sister on either side and
the nodes between the two, and is then excised from `r` to `f`, nothing is reported, and the root,
the attached nodes and their labels, parents and children are those from before. -/
theorem excise_createSubtree (h : s.tree.WellFormed) (marks : Marks) {text : List Char}
    {template : Template} (hparse : Template.parse text = .ok template) {r f : String}
    (hr : template.rootName? = some r) (hf : template.footName? = some f)
    (hasked : s.Resolves template.askedNames) {first : String} {a : NodeId}
    (hfirst : s.fetch first = .ok a) (ha : s.tree.isAttached a = true) {last : Option String}
    (hlast : ∀ name, last = some name → ∃ b, s.fetch name = .ok b ∧
      (b = a ∨ ∃ p, s.tree.parent a = some p ∧ s.tree.parent b = some p)) :
    let after := runAll marks [.createSubtree template first last, .excise r f] s
    after.2 = [] ∧ SameAttached s.tree after.1.tree ∧
      ∀ n ∈ s.tree.attached, after.1.tree.label n = s.tree.label n := by
  intro after
  obtain ⟨filled, foot, hinst⟩ :=
    Template.exists_instance hparse (Template.foot?_isSome_of_footName hf) hasked
  have hroot := h.loose_graft (filled.map Prod.fst)
  have hbelow := h.atOrUnder_graft (filled.map Prod.fst) hinst.foot_ge hinst.foot_lt
  have hdetached : (s.plant filled).tree.isAttached foot = false :=
    (h.graft _).not_isAttached_below hroot hbelow
  obtain ⟨v, henclosed, hv⟩ := attempt_of_ends "createSubtree"
    (Step.ends_createSubtree h hinst hfirst ha last hlast)
  have htop := Step.fetch_of_enclosedBy hv (node?_of_created (hinst.root_name r hr)) hroot.known
  have hbottom :=
    Step.fetch_of_enclosedBy hv (node?_of_created (hinst.foot_name f hf)) hinst.foot_lt
  have hexcise : Ends (do
      let top ← Step.fetch r
      let bottom ← Step.fetch f
      Step.edit (.excise top bottom)) v (fun _ w => Restored (s.plant filled).tree w.tree)
      fun _ _ => False := by
    refine Step.ends_fetch htop (Step.ends_fetch hbottom (Step.ends_last_edit ?_))
    obtain ⟨u, span, henc, rfl⟩ := hv
    exact Edit.ends_excise_enclosed henc hdetached
  obtain ⟨w, hexcised, hw⟩ := attempt_of_ends "excise" hexcise
  have hfirstRun : (createSubtree template first last).run marks s = (v, []) := henclosed
  have hsecondRun : (excise r f).run marks v = (w, []) := hexcised
  have hafter : after = (w, []) := by
    show runAll marks [.createSubtree template first last, .excise r f] s = (w, [])
    rw [runAll, hfirstRun]
    dsimp only
    rw [runAll, hsecondRun]
    rfl
  rw [hafter]
  have hgrown := Grown.single s.tree (filled.map Prod.fst)
  refine ⟨rfl, h.sameAttached hw.wellFormed (hw.root.trans hgrown.root_eq) ?_, fun n hn => ?_⟩
  · intro n hn
    rw [hw.children n (by rwa [← hgrown.isAttached_eq h] at hn)]
    exact (hgrown.reads_eq (h.lt_size_of_isAttached hn)).2.2
  · rw [hw.label]
    exact (hgrown.reads_eq (h.lt_size_of_mem_attached hn)).1

/-- In `(S a b c)` the sisters from `b` back to `a` are enclosed in `(X Y)`, below `Y`, and come
back to their places. -/
theorem excise_createSubtree_of_two :
    let t := Tree.ofConstituent (some (.node "S" [.node "a" [], .node "b" [], .node "c" []]))
    let s : Surgery := ⟨t, ⟨0, [some 1, some 2], ["a", "b"]⟩, []⟩
    let read := Template.parse "(X=r Y=f@)".toList
    let enclose : Template → Operation := fun template => .createSubtree template "b" (some "a")
    s.fetch "b" = .ok 2 ∧ ∃ template, read = .ok template ∧
      (read.toOption.map fun template => (runAll [] [enclose template] s).1.tree.attached) =
        some [0, 4, 5, 1, 2, 3] ∧
      (runAll [] [enclose template, .excise "r" "f"] s).2 = [] ∧
      (runAll [] [enclose template, .excise "r" "f"] s).1.tree.attached = t.attached := by
  intro t s read enclose
  have h : t.WellFormed := wellFormed_ofConstituent _
  have hnames : (read.toOption.map fun template =>
      (template.rootName?, template.footName?, template.askedNames)) =
        some (some "r", some "f", []) := by decide +kernel
  have hplaced : (read.toOption.map fun template =>
      (runAll [] [enclose template] s).1.tree.attached) = some [0, 4, 5, 1, 2, 3] := by
    decide +kernel
  cases hparse : read with
  | error e =>
    rw [hparse] at hnames
    exact absurd hnames (by simp [Except.toOption])
  | ok template =>
    rw [hparse] at hnames
    obtain ⟨hr, hf, hnone⟩ : template.rootName? = some "r" ∧ template.footName? = some "f" ∧
        template.askedNames = [] := by simpa [Except.toOption] using hnames
    have hfirst : s.fetch "b" = .ok 2 := rfl
    have hattached : t.isAttached 2 = true := by decide +kernel
    have hasked : s.Resolves template.askedNames := fun name hname =>
      absurd hname (by rw [hnone]; exact List.not_mem_nil)
    have hlast : ∀ name, some "a" = some name → ∃ b, s.fetch name = .ok b ∧
        (b = 2 ∨ ∃ p, t.parent 2 = some p ∧ t.parent b = some p) := by
      intro name hname
      obtain rfl := Option.some.inj hname
      exact ⟨1, rfl, .inr ⟨0, by decide, by decide⟩⟩
    have hrestored := excise_createSubtree h [] hparse hr hf hasked hfirst hattached hlast
    exact ⟨hfirst, template, rfl, hparse ▸ hplaced, hrestored.1, hrestored.2.1.attached⟩

end Operation

end Constituency
