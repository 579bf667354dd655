import Constituency.Proofs.Pattern.Parentheses
import Constituency.Proofs.Pattern.Places
import Constituency.Proofs.Search.Merging

/-!
# Relations of a node in parentheses

Relations can be added to a node by writing them behind it, with the node in parentheses if it has
relations already. The same can be written as one conjunction, with each group of relations in
brackets. Both texts are read as the same target and the same relations (`Gathers`), joined one by
one in the first and all at once in the second. Joined conditions have the solutions of the
conjunction, in order (`Condition.solutions_merge`), and both texts mention the same names in the
same order. So each is a pattern if the other is, and they have the same matches in the same order.
-/

namespace Constituency

open Grammar PatternRule

/-! ## Nodes that have the same solutions -/

/-- Two nodes that must look alike and have the same solutions. -/
structure NodePattern.SameSolutions (p q : NodePattern) : Prop where
  description : q.description = p.description
  solutions : ∀ s id b, q.solutions s id b = p.solutions s id b

namespace NodePattern

variable {p q r : NodePattern} {c : Condition} {cs : List Condition}

theorem SameSolutions.trans (h : p.SameSolutions q) (h' : q.SameSolutions r) :
    p.SameSolutions r where
  description := h'.description.trans h.description
  solutions s id b := (h'.solutions s id b).trans (h.solutions s id b)

theorem SameSolutions.symm (h : p.SameSolutions q) : q.SameSolutions p where
  description := h.description.symm
  solutions s id b := (h.solutions s id b).symm

/-- Nothing is required by no conditions. -/
theorem sameSolutions_and_nil (p : NodePattern) : p.SameSolutions (p.and (.all [])) where
  description := description_and p _
  solutions s id b := by
    have hnone : (Condition.all []).solutions s id = fun b => [b] := by
      funext b
      rw [Condition.solutions, Condition.solutionsAll]
    rw [solutions_and, hnone, List.flatMap_singleton']

/-- One more condition is one more part of a conjunction. -/
theorem SameSolutions.and_append (h : p.SameSolutions (q.and (.all cs))) (c : Condition) :
    (p.and c).SameSolutions (q.and (.all (cs ++ [c]))) where
  description := by
    rw [description_and, description_and, ← h.description, description_and]
  solutions s id b := by
    have hlast : Condition.solutionsAll s [c] id = c.solutions s id :=
      funext fun b => Condition.solutionsAll_singleton s c id b
    have hall : (Condition.all (cs ++ [c])).solutions s id =
        fun b => ((Condition.all cs).solutions s id b).flatMap (c.solutions s id) := by
      funext b
      rw [Condition.solutions, Condition.solutionsAll_append, hlast, Condition.solutions]
    rw [solutions_and, solutions_and, ← h.solutions, solutions_and, hall, List.flatMap_assoc]

/-- A conjunction of one condition is that condition. -/
theorem sameSolutions_allOf (p : NodePattern) (cs : List Condition) :
    (p.and (PatternReader.allOf cs)).SameSolutions (p.and (.all cs)) where
  description := by rw [description_and, description_and]
  solutions s id b := by
    have hall : (Condition.all cs).solutions s id = (PatternReader.allOf cs).solutions s id := by
      funext b
      match cs with
      | [c] =>
        rw [Condition.solutions]
        exact Condition.solutionsAll_singleton s c id b
      | [] | _ :: _ :: _ => rfl
    rw [solutions_and, solutions_and, hall]

end NodePattern

namespace PatternReader

/-! ## Parts that are read as one conjunction -/

/-- Whatever the first comes to, the second comes to a node that has the same solutions. -/
def AgreeOnSolutions (x y : Except PatternError NodePattern) : Prop :=
  ∀ p, x = .ok p → ∃ q, y = .ok q ∧ p.SameSolutions q

/-- Reads a node and conditions of it, as one conjunction. -/
def gathered (s : Source) (head : Part) (rs : List Part) : Except PatternError NodePattern := do
  let p ← nodePattern s head
  let cs ← rs.mapM (condition s)
  return p.and (.all cs)

section gathered

variable {s s' : Source} {q head r : Part} {rs : List Part} {p : NodePattern}

theorem gathered_eq_ok : gathered s head rs = .ok p ↔ ∃ np cs, nodePattern s head = .ok np ∧
    rs.mapM (condition s) = .ok cs ∧ p = np.and (.all cs) :=
  both_eq_ok

theorem nodePattern_related (i : Nat) (w : List Char) :
    nodePattern s (.node nodeExpr i w [q, r]) = .ok p ↔
      ∃ np c, nodePattern s q = .ok np ∧ condition s r = .ok c ∧ p = np.and c := by
  rw [nodePattern]
  exact both_eq_ok

theorem mapM_condition_append {cs : List Condition} :
    (rs ++ [r]).mapM (condition s) = .ok cs ↔
      ∃ ds c, rs.mapM (condition s) = .ok ds ∧ condition s r = .ok c ∧ cs = ds ++ [c] := by
  rw [List.mapM_append]
  simp only [bind_eq_ok, List.mapM_cons, List.mapM_nil]
  constructor
  · rintro ⟨ds, hds, _, ⟨c, hc, _, hnil, hlast⟩, hcs⟩
    obtain rfl := Except.ok.inj hnil
    obtain rfl := Except.ok.inj hlast
    exact ⟨ds, c, hds, hc, (Except.ok.inj hcs).symm⟩
  · rintro ⟨ds, c, hds, hc, rfl⟩
    exact ⟨ds, hds, [c], ⟨c, hc, [], rfl, rfl⟩, rfl⟩

variable (hs : s'.names = s.names) (d e : Nat)

include hs

theorem nodePattern_moved (p : Part) :
    Agree (nodePattern s (p.moved d)) (nodePattern s' (p.moved e)) :=
  Parse.moved_placed d e p ▸ (isPlaceless _ hs (p.moved d)).node

theorem nodePattern_agree (p : Part) : Agree (nodePattern s p) (nodePattern s' p) := by
  have hread := nodePattern_moved hs 0 0 p
  rwa [Parse.moved_zero] at hread

theorem condition_moved (p : Part) :
    Agree (condition s (p.moved d)) (condition s' (p.moved e)) :=
  Parse.moved_placed d e p ▸ (isPlaceless _ hs (p.moved d)).condition

end gathered

theorem keys_moved (d : Nat) (b : Bool) (p : Part) :
    (mentions b (p.moved d)).map Mention.key = (mentions b p).map Mention.key := by
  have hplaced := (keys_placed fun i => i - 0 + d).1 b (p.moved 0)
  rwa [Parse.moved_placed, Parse.moved_zero] at hplaced

/-- A part for a node that is read as a target with conditions, wherever all of these start. -/
structure Gathers (q head : Part) (rs : List Part) : Prop where
  keys : (mentions false q).map Mention.key =
    ((head :: rs).flatMap (mentions false)).map Mention.key
  apart : ∀ s s' : Source, s'.names = s.names →
    AgreeOnSolutions (nodePattern s q) (gathered s' head rs)
  together : ∀ s s' : Source, s'.names = s.names →
    AgreeOnSolutions (gathered s head rs) (nodePattern s' q)

namespace Gathers

variable {q head r : Part} {rs : List Part}

theorem target (head : Part) : Gathers head head [] where
  keys := by rw [List.flatMap_singleton]
  apart s s' hs p hp :=
    ⟨_, gathered_eq_ok.mpr ⟨p, [], nodePattern_agree hs head p hp, rfl, rfl⟩,
      p.sameSolutions_and_nil⟩
  together s s' hs p hp := by
    obtain ⟨np, cs, hnp, hcs, rfl⟩ := gathered_eq_ok.mp hp
    obtain rfl := Except.ok.inj hcs
    exact ⟨np, nodePattern_agree hs head np hnp, np.sameSolutions_and_nil.symm⟩

/-- **A relation behind a node in parentheses is one more part of the conjunction.** -/
theorem related (h : Gathers q head rs) (i : Nat) (w : List Char) (d e : Nat) :
    Gathers (.node nodeExpr i w [q.moved d, r.moved e]) head (rs ++ [r]) where
  keys := by
    rw [mentions_of_isTransparent rfl, List.flatMap_cons, List.flatMap_singleton, List.map_append,
      keys_moved, keys_moved, h.keys, ← List.cons_append, List.flatMap_append, List.map_append,
      List.flatMap_singleton]
  apart s s' hs p hp := by
    obtain ⟨np, c, hnp, hc, rfl⟩ := (nodePattern_related i w).mp hp
    have hq := nodePattern_moved hs d 0 q np hnp
    have hr := condition_moved hs e 0 r c hc
    rw [Parse.moved_zero] at hq hr
    obtain ⟨_, hgathered, hsame⟩ := h.apart s' s' rfl np hq
    obtain ⟨np', cs, hhead, hcs, rfl⟩ := gathered_eq_ok.mp hgathered
    exact ⟨_, gathered_eq_ok.mpr ⟨np', cs ++ [c], hhead,
      mapM_condition_append.mpr ⟨cs, c, hcs, hr, rfl⟩, rfl⟩, hsame.and_append c⟩
  together s s' hs p hp := by
    obtain ⟨np, _, hhead, hall, rfl⟩ := gathered_eq_ok.mp hp
    obtain ⟨cs, c, hcs, hr, rfl⟩ := mapM_condition_append.mp hall
    obtain ⟨np', hq, hsame⟩ := h.together s s' hs _ (gathered_eq_ok.mpr ⟨np, cs, hhead, hcs, rfl⟩)
    rw [← Parse.moved_zero r] at hr
    rw [← Parse.moved_zero q] at hq
    exact ⟨_, (nodePattern_related i w).mpr ⟨np', c, nodePattern_moved rfl 0 d q np' hq,
      condition_moved hs 0 e r c hr, rfl⟩, (hsame.symm.and_append c).symm⟩

end Gathers

section bracketed

variable {rs ts : List Part}

theorem condition_bracketed (s : Source) (i : Nat) (w : List Char) (q : Part) :
    condition s (.node term i w [q]) = condition s q := by
  rw [condition]

/-- Brackets do not change what is read in them. -/
theorem mapM_bracketed {s s' : Source} (hs : s'.names = s.names)
    (h : List.Forall₂ IsBracketed rs ts) :
    Agree (ts.mapM (condition s)) (rs.mapM (condition s')) ∧
      Agree (rs.mapM (condition s)) (ts.mapM (condition s')) := by
  induction h with
  | nil => exact ⟨.refl _, .refl _⟩
  | @cons r t rs ts ht _ ih =>
    obtain ⟨i, w, d, rfl⟩ := ht.term
    have hinside := condition_moved hs d 0 r
    have houtside := condition_moved hs 0 d r
    rw [Parse.moved_zero] at hinside houtside
    rw [List.mapM_cons, List.mapM_cons, List.mapM_cons, List.mapM_cons, condition_bracketed,
      condition_bracketed]
    exact ⟨hinside.bind fun _ => ih.1.bind fun _ => .refl _,
      houtside.bind fun _ => ih.2.bind fun _ => .refl _⟩

theorem keys_bracketed (h : List.Forall₂ IsBracketed rs ts) :
    (ts.flatMap (mentions false)).map Mention.key =
      (rs.flatMap (mentions false)).map Mention.key := by
  induction h with
  | nil => rfl
  | @cons r t rs ts ht _ ih =>
    obtain ⟨i, w, d, rfl⟩ := ht.term
    have hmentions : mentions false (.node term i w [r.moved d]) = mentions false (r.moved d) := by
      obtain ⟨r, j, v, qs⟩ := r
      obtain rfl : r = disjunction := ht.rule
      exact List.append_nil _
    rw [List.flatMap_cons, List.flatMap_cons, List.map_append, List.map_append, ih, hmentions,
      keys_moved]

theorem condition_conjoined {s : Source} {c : Condition} (i j : Nat) (v w : List Char) :
    condition s (.node disjunction i v [.node conjunction j w ts]) = .ok c ↔
      ∃ cs, ts.mapM (condition s) = .ok cs ∧ c = allOf cs := by
  rw [condition, conditions, condition, conditions_eq_mapM, conditions]
  simp only [map_eq_ok, bind_eq_ok]
  constructor
  · rintro ⟨_, ⟨_, ⟨cs, hcs, rfl⟩, _, hnil, hone⟩, rfl⟩
    obtain rfl := Except.ok.inj hnil
    obtain rfl := Except.ok.inj hone
    exact ⟨cs, hcs, rfl⟩
  · rintro ⟨cs, hcs, rfl⟩
    exact ⟨[allOf cs], ⟨allOf cs, ⟨cs, hcs, rfl⟩, [], rfl, rfl⟩, rfl⟩

/-- **So is a condition in brackets behind `&`.** -/
theorem Gathers.conjoined {head : Part} (h : List.Forall₂ IsBracketed rs ts) (i j l : Nat)
    (u v w : List Char) :
    Gathers (.node nodeExpr i w [head, .node disjunction j u [.node conjunction l v ts]]) head
      rs where
  keys := by
    rw [mentions_of_isTransparent rfl, List.flatMap_cons, List.flatMap_singleton,
      mentions_of_isTransparent rfl, List.flatMap_singleton, mentions_of_isTransparent rfl,
      List.map_append, keys_bracketed h, ← List.map_append, List.flatMap_cons]
  apart s s' hs p hp := by
    obtain ⟨np, c, hnp, hc, rfl⟩ := (nodePattern_related i w).mp hp
    obtain ⟨cs, hcs, rfl⟩ := (condition_conjoined j l u v).mp hc
    exact ⟨_, gathered_eq_ok.mpr ⟨np, cs, nodePattern_agree hs head np hnp,
      (mapM_bracketed hs h).1 cs hcs, rfl⟩, np.sameSolutions_allOf cs⟩
  together s s' hs p hp := by
    obtain ⟨np, cs, hnp, hcs, rfl⟩ := gathered_eq_ok.mp hp
    exact ⟨_, (nodePattern_related i w).mpr ⟨np, allOf cs, nodePattern_agree hs head np hnp,
      (condition_conjoined j l u v).mpr ⟨cs, (mapM_bracketed hs h).2 cs hcs, rfl⟩, rfl⟩,
      (np.sameSolutions_allOf cs).symm⟩

end bracketed

/-! ## Patterns of such parts -/

section patterns

variable {text text' : String} {q q' head : Part} {rs : List Part} {marks : Marks} {p : Pattern}
  {ms ms' : List Mention}

/-- What can be computed of the mentions without their places is the same for the same keys. -/
theorem any_of_keys (hkeys : ms'.map Mention.key = ms.map Mention.key)
    (f : String × Bool × Bool → Bool) : (ms'.any fun m => f m.key) = ms.any fun m => f m.key := by
  have hmap : ∀ os : List Mention, (os.any fun m => f m.key) = (os.map Mention.key).any f :=
    fun os => by rw [List.any_map]; rfl
  rw [hmap, hmap, hkeys]

theorem isVisible_of_keys (hkeys : ms'.map Mention.key = ms.map Mention.key) :
    isVisible ms' = isVisible ms :=
  funext fun name => any_of_keys hkeys fun k => k.2.1 && !k.2.2 && k.1 == name

/-- What is wrong with a reference depends on what is mentioned, not on where. -/
theorem referenceFault_of_keys {m m' : Mention} (hkeys : ms'.map Mention.key = ms.map Mention.key)
    (hm : m'.key = m.key) : referenceFault ms' m' = referenceFault ms m := by
  obtain ⟨hname, hcaptures, hnegated⟩ : m'.name = m.name ∧ m'.captures = m.captures ∧
      m'.negated = m.negated := by simpa [Mention.key] using hm
  have hknown : (ms'.any fun o => o.captures && o.name == m.name) =
      ms.any fun o => o.captures && o.name == m.name :=
    any_of_keys hkeys fun k => k.2.1 && k.1 == m.name
  rw [referenceFault, referenceFault, hname, hcaptures, hnegated, hknown,
    isVisible_of_keys hkeys]

/-- The names that are mentioned, in order. -/
def namesOf (ms : List Mention) : List String := (ms.map (·.name)).eraseDups

theorem namesOf_of_keys (hkeys : ms'.map Mention.key = ms.map Mention.key) :
    namesOf ms' = namesOf ms := by
  have hfst : ∀ os : List Mention, os.map (·.name) = (os.map Mention.key).map Prod.fst :=
    fun os => by rw [List.map_map]; rfl
  rw [namesOf, namesOf, hfst, hfst, hkeys]

/-- Whether every reference is to a name that it can refer to. -/
def AreFaultless (ms : List Mention) : Prop := ∀ m ∈ ms, referenceFault ms m = none

theorem AreFaultless.of_keys (h : AreFaultless ms)
    (hkeys : ms'.map Mention.key = ms.map Mention.key) : AreFaultless ms' := by
  intro m' hm'
  have hkey : m'.key ∈ ms.map Mention.key := hkeys ▸ List.mem_map_of_mem hm'
  obtain ⟨m, hm, hsame⟩ := List.mem_map.mp hkey
  rw [referenceFault_of_keys hkeys hsame.symm]
  exact h m hm

/-- The pattern that a text is, of which the node is known. -/
theorem parse_iff_of_node (h : IsWholeNode text.toList q) :
    Pattern.parse text marks = .ok p ↔
      AreFaultless (mentions false q) ∧
      ∃ root, nodePattern ⟨text.toList, namesOf (mentions false q)⟩ q = .ok root ∧
        p = ⟨text, root, namesOf (mentions false q),
          (namesOf (mentions false q)).map (isVisible (mentions false q)), marks⟩ := by
  obtain ⟨w, e, hparse, hmentions⟩ := parse_node h (afterBlanks_of_nodeExpr h)
  have hfault : ∀ s, firstFault s (mentions false q) = none ↔ AreFaultless (mentions false q) := by
    intro s
    rw [firstFault, List.findSome?_eq_none_iff]
    exact forall₂_congr fun m _ => Option.map_eq_none_iff
  unfold Pattern.parse
  dsimp only
  rw [hparse]
  dsimp only [Parse.parts]
  rw [hmentions false, bind_eq_ok]
  constructor
  · rintro ⟨root, hroot, hp⟩
    split at hp
    · exact absurd hp (by simp [throw, throwThe, MonadExceptOf.throw])
    · rename_i hnone
      exact ⟨(hfault _).mp hnone, root, hroot, (Except.ok.inj hp).symm⟩
  · rintro ⟨hfaultless, root, hroot, rfl⟩
    refine ⟨root, hroot, ?_⟩
    rw [(hfault _).mpr hfaultless]
    rfl

/-- **Texts that gather the same parts have the same matches.** -/
theorem exists_sameMatches (hq : Gathers q head rs) (hq' : Gathers q' head rs)
    (h : IsWholeNode text.toList q) (h' : IsWholeNode text'.toList q')
    (hp : Pattern.parse text marks = .ok p) :
    ∃ p', Pattern.parse text' marks = .ok p' ∧ p.SameMatches p' := by
  have hkeys : (mentions false q').map Mention.key = (mentions false q).map Mention.key :=
    hq'.keys.trans hq.keys.symm
  have hnames := namesOf_of_keys hkeys
  obtain ⟨hfaultless, root, hroot, rfl⟩ := (parse_iff_of_node h).mp hp
  obtain ⟨_, hgathered, hsame⟩ :=
    hq.apart _ ⟨text'.toList, namesOf (mentions false q')⟩ hnames root hroot
  obtain ⟨root', hroot', hsame'⟩ := hq'.together _ _ rfl _ hgathered
  refine ⟨_, (parse_iff_of_node h').mpr ⟨hfaultless.of_keys hkeys, root', hroot', rfl⟩, ?_⟩
  exact Pattern.sameMatches_of_solutions hnames (by rw [hnames, isVisible_of_keys hkeys]) rfl
    (hsame.trans hsame').description (hsame.trans hsame').solutions

end patterns

/-- Relations that follow a node one after the other, with all before them in parentheses. -/
theorem exists_gathers_nested {relations : List String} {rs ps : List Part} {head q : Part}
    {front : String} (hq : Gathers q head ps) (h : IsWholeNode front.toList q)
    (hrs : List.Forall₂ IsWholeCondition (relations.map String.toList) rs) :
    let text := relations.foldl (fun front r => "(" ++ front ++ ") " ++ r) front
    ∃ q', IsWholeNode text.toList q' ∧ Gathers q' head (ps ++ rs) := by
  induction relations generalizing front q ps rs with
  | nil =>
    obtain rfl := List.forall₂_nil_left_iff.mp hrs
    rw [List.append_nil]
    exact ⟨q, h, hq⟩
  | cons relation relations ih =>
    obtain ⟨r, rs, hr, hlater, rfl⟩ := List.forall₂_cons_left_iff.mp hrs
    have htext : ("(" ++ front ++ ") " ++ relation).toList =
        '(' :: (front.toList ++ ')' :: ' ' :: relation.toList) := by
      simp only [String.toList_append, List.append_assoc]
      rfl
    obtain ⟨i, w, d, e, hread⟩ := exists_reads_parenthesized htext h hr
    have hnext := ih (hq.related (r := r) i w d e) hread hlater
    rwa [List.append_assoc] at hnext

theorem exists_areWholeConditions {relations : List String}
    (h : ∀ r ∈ relations, areRelations r = true) :
    ∃ rs, List.Forall₂ IsWholeCondition (relations.map String.toList) rs := by
  induction relations with
  | nil => exact ⟨[], .nil⟩
  | cons relation relations ih =>
    obtain ⟨hfirst, hlater⟩ := List.forall_mem_cons.mp h
    obtain ⟨r, hr⟩ := exists_isWholeCondition hfirst
    obtain ⟨rs, hrs⟩ := ih hlater
    exact ⟨r :: rs, .cons hr hrs⟩

end PatternReader

namespace Pattern

open PatternReader

/-- A target with relations that follow one after the other, each behind all before in
parentheses. -/
def nestedText (target relation : String) (relations : List String) : String :=
  relations.foldl (fun front r => "(" ++ front ++ ") " ++ r) (target ++ " " ++ relation)

/-- A target with the conjunction of its relations, each in brackets. -/
def conjoinedText (target relation : String) (relations : List String) : String :=
  target ++ " " ++ " & ".intercalate ((relation :: relations).map fun r => "[" ++ r ++ "]")

variable {target relation : String} {relations : List String}

theorem toList_conjoinedText :
    (conjoinedText target relation relations).toList = target.toList ++ ' ' :: '[' ::
      (relation.toList ++ ']' :: bracketedBehind (relations.map String.toList)) := by
  have hbracketed : ∀ r : String, ("[" ++ r ++ "]").toList = '[' :: (r.toList ++ [']']) := by
    intro r
    rw [String.toList_append, String.toList_append]
    rfl
  have hmarks : " ".toList = [' '] ∧ " & ".toList = [' ', '&', ' '] := ⟨rfl, rfl⟩
  rw [conjoinedText, String.toList_append, String.toList_append, String.toList_intercalate,
    List.map_map, List.map_cons, intercalate_cons, bracketedBehind, List.flatMap_map,
    List.flatMap_map, hmarks.1, hmarks.2]
  simp only [Function.comp_apply, hbracketed, List.append_assoc, List.cons_append, List.nil_append]

theorem exists_gathers (htarget : isTarget target = true)
    (hrelations : ∀ r ∈ relation :: relations, areRelations r = true) :
    ∃ head rs q q', Gathers q head rs ∧ Gathers q' head rs ∧
      IsWholeNode (nestedText target relation relations).toList q ∧
      IsWholeNode (conjoinedText target relation relations).toList q' := by
  obtain ⟨u, head, hu, hhead⟩ := exists_reads_of_isTarget htarget
  obtain ⟨hfirst, hlater⟩ := List.forall_mem_cons.mp hrelations
  obtain ⟨r, hr⟩ := exists_isWholeCondition hfirst
  obtain ⟨rs, hrs⟩ := exists_areWholeConditions hlater
  -- the first relations follow the target itself
  have htext : (target ++ " " ++ relation).toList = target.toList ++ ' ' :: relation.toList := by
    simp only [String.toList_append, List.append_assoc]
    rfl
  obtain ⟨e, hlast⟩ := hr.reads_last (n := (target ++ " " ++ relation).toList.length)
    (length_later (w := [' ']) (length_later (by rw [htext]; exact Nat.le_refl _)))
  obtain ⟨i, w, hfront⟩ := exists_reads_spaced htext hhead hu hlast
  have hgathers := (Gathers.target head).related (r := r) i w 0 e
  rw [Parse.moved_zero] at hgathers
  obtain ⟨q, hnested, hq⟩ := exists_gathers_nested hgathers hfront hrs
  obtain ⟨i, j, l, x, y, z, ts, hts, hconjoined⟩ :=
    exists_reads_conjoined toList_conjoinedText hhead hu hr hrs
  exact ⟨head, r :: rs, q, _, hq, .conjoined hts i j l y z x, hnested, hconjoined⟩

/-- **Relations that are joined one by one are one conjunction.** -/
theorem nested_matches_conjoined (htarget : isTarget target = true)
    (hrelations : ∀ r ∈ relation :: relations, areRelations r = true) (marks : Marks) :
    (∀ (s : Scene) (n : Nat) (id : NodeId) (a b : Condition) (goals : List Goal)
      (bound : Bindings) (choices : List Choice),
      Machine.answers s n ⟨.meets id (a.merge b) :: goals, bound, choices⟩ =
        Machine.answers s n ⟨.meets id (.all [a, b]) :: goals, bound, choices⟩) ∧
    (∀ p, Pattern.parse (nestedText target relation relations) marks = .ok p →
      ∃ q, Pattern.parse (conjoinedText target relation relations) marks = .ok q ∧
        p.SameMatches q) ∧
    ∀ q, Pattern.parse (conjoinedText target relation relations) marks = .ok q →
      ∃ p, Pattern.parse (nestedText target relation relations) marks = .ok p ∧
        q.SameMatches p := by
  obtain ⟨head, rs, q, q', hq, hq', hnested, hconjoined⟩ := exists_gathers htarget hrelations
  refine ⟨fun s n id a b goals bound choices => ?_,
    fun p hp => exists_sameMatches hq hq' hnested hconjoined hp,
    fun p hp => exists_sameMatches hq' hq hconjoined hnested hp⟩
  refine Machine.answers_congr ?_ n
  rw [Goal.solutions, Goal.solutions, Condition.solutions_merge, Condition.solutions_both]

/-- Relations of one node in three groups: one consists of alternatives, and one refers to a name
that another one gives. -/
theorem nested_matches_conjoined_of_noun_phrase :
    let relations := ["< NN | <2 (NN=n:leaf)", "!$ =d & >> S"]
    let nested := "(((NP=x) < DT=d) < NN | <2 (NN=n:leaf)) !$ =d & >> S"
    let conjoined := "(NP=x) [< DT=d] & [< NN | <2 (NN=n:leaf)] & [!$ =d & >> S]"
    isTarget "(NP=x)" = true ∧ (∀ r ∈ "< DT=d" :: relations, areRelations r = true) ∧
      nestedText "(NP=x)" "< DT=d" relations = nested ∧
      conjoinedText "(NP=x)" "< DT=d" relations = conjoined ∧
      ∃ p q, Pattern.parse nested .standard = .ok p ∧ Pattern.parse conjoined .standard = .ok q ∧
        p.names = ["x", "d", "n"] ∧ p.SameMatches q := by
  intro relations nested conjoined
  have htarget : isTarget "(NP=x)" = true := by decide +kernel
  have hrelations : ∀ r ∈ "< DT=d" :: relations, areRelations r = true := by decide +kernel
  have hnested : nestedText "(NP=x)" "< DT=d" relations = nested := by decide +kernel
  have hconjoined : conjoinedText "(NP=x)" "< DT=d" relations = conjoined := by decide +kernel
  have hread : (Pattern.parse nested .standard).toOption.any
      (·.names == ["x", "d", "n"]) = true := by
    decide +kernel
  obtain ⟨p, hp, hnames⟩ := exists_of_any hread
  have hsame := (nested_matches_conjoined htarget hrelations .standard).2.1
  rw [hnested, hconjoined] at hsame
  obtain ⟨q, hq, hmatches⟩ := hsame p hp
  exact ⟨htarget, hrelations, hnested, hconjoined, p, q, hp, hq, by simpa using hnames, hmatches⟩

end Pattern

end Constituency
