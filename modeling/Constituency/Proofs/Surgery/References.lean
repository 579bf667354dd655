import Constituency.Proofs.Grammar.Parts
import Constituency.Proofs.Surgery.Joining
import Constituency.Proofs.Surgery.Names

/-!
# The references of a script

What a script refers to is seen in its parse: names, the holes of templates, and the labels that
replacements use (`ScriptReader.references`), in the order of the text. A reading for a pattern
comes to the same as one without, unless one of the references is to a name that is not known; then
it comes to the error at the first of these (`ScriptReader.Checked`). This is kept by reading one
part after the other, and so it passes from single names to operations.
-/

namespace Constituency

open Grammar

/-- A name that a script refers to, and where it does, in bytes from the start. -/
structure Reference where
  name : String
  position : Nat
deriving DecidableEq

/-- The names that an operation refers to, in the order in which it is written. -/
def Operation.referredNames : Operation → List String
  | delete names => names
  | prune names => names
  | coindex names => names
  | excise top bottom => [top, bottom]
  | relabel name how => name :: how.askedNames
  | insert operand place => operand.askedNames ++ [place.anchor]
  | move name place => [name, place.anchor]
  | replace name operands => name :: operands.flatMap Operand.askedNames
  | adjoin _ template target => template.askedNames ++ [target]
  | createSubtree template first last => template.askedNames ++ first :: last.toList
  | ifExists name _ guarded => name :: guarded.referredNames

namespace ScriptReader

open ScriptRule Script

/-- The names that the text of a token refers to. -/
def tokenNames : ScriptRule → List Char → List String
  | .name, cs => [String.ofList cs]
  | .template, cs =>
    match Template.parse cs with
    | .ok t => t.askedNames
    | .error _ => []
  | .replacement, cs =>
    match Replacement.parse cs with
    | .ok parts => labelNames parts
    | .error _ => []
  | _, _ => []

mutual

/-- What a part of a script refers to, in order. All that a token refers to is where the token
starts. -/
def references (text : List Char) : Part → List Reference
  | .node r i cs ps =>
    if r.kind = .token then (tokenNames r cs).map fun name => ⟨name, Text.byteOffset text i⟩
    else referencesAll text ps

/-- What several parts of a script refer to, in order. -/
def referencesAll (text : List Char) : List Part → List Reference
  | [] => []
  | p :: ps => references text p ++ referencesAll text ps

end

section references

variable {text : List Char} {p : Part} {ps : List Part} {lo hi : Nat}

theorem referencesAll_eq (text : List Char) (ps : List Part) :
    referencesAll text ps = ps.flatMap (references text) := by
  induction ps with
  | nil => rfl
  | cons p ps ih => rw [referencesAll, ih, List.flatMap_cons]

theorem references_of_token (h : p.rule.kind = .token) :
    references text p =
      (tokenNames p.rule p.text).map fun name => ⟨name, Text.byteOffset text p.start⟩ := by
  cases p
  rw [references]
  exact if_pos h

theorem references_of_parts (h : p.rule.kind ≠ .token) :
    references text p = p.parts.flatMap (references text) := by
  cases p
  rw [references, referencesAll_eq]
  exact if_neg h

/-- Keywords and the like refer to nothing. -/
theorem references_eq_nil {r : ScriptRule} (hp : p.rule = r) (hr : r.kind = .token)
    (hnone : ∀ cs, tokenNames r cs = []) : references text p = [] := by
  rw [references_of_token (by rw [hp, hr]), hp, hnone, List.map_nil]

/-- What begins with a keyword refers to what the rest of it refers to. -/
theorem references_of_keyword {r : ScriptRule} {i : Nat} {cs : List Char} {keyword : Part}
    {rest : List Part} (hr : r.kind ≠ .token) {k : ScriptRule} (hkeyword : keyword.rule = k)
    (hk : k.kind = .token) (hnone : ∀ cs, tokenNames k cs = []) :
    references text (.node r i cs (keyword :: rest)) = rest.flatMap (references text) := by
  rw [references_of_parts (p := .node r i cs (keyword :: rest)) hr, Parse.parts,
    List.flatMap_cons, references_eq_nil hkeyword hk hnone, List.nil_append]

/-! ## Text order -/

theorem byteLength_append (cs cs' : List Char) :
    Text.byteLength (cs ++ cs') = Text.byteLength cs + Text.byteLength cs' := by
  have hshift : ∀ (cs : List Char) (k : Nat),
      cs.foldl (fun n c => n + c.utf8Size) k = k + cs.foldl (fun n c => n + c.utf8Size) 0 := by
    intro cs
    induction cs with
    | nil => exact fun k => rfl
    | cons c cs ih =>
      intro k
      rw [List.foldl_cons, List.foldl_cons, ih, ih (0 + c.utf8Size)]
      omega
  rw [Text.byteLength, List.foldl_append, hshift]
  rfl

theorem byteOffset_mono (text : List Char) (h : lo ≤ hi) :
    Text.byteOffset text lo ≤ Text.byteOffset text hi := by
  obtain ⟨d, rfl⟩ := Nat.le.dest h
  rw [Text.byteOffset, Text.byteOffset, List.take_add, byteLength_append]
  exact Nat.le_add_right ..

/-- References that stand in order between two places of a text. -/
structure Spread (text : List Char) (lo hi : Nat) (refs : List Reference) : Prop where
  sorted : refs.Pairwise fun r r' => r.position ≤ r'.position
  within : ∀ r ∈ refs, Text.byteOffset text lo ≤ r.position ∧ r.position ≤ Text.byteOffset text hi

mutual

theorem spread_references : ∀ p : Part, p.InOrder →
    Spread text p.start (p.start + p.text.length) (references text p)
  | .node r i cs ps, h => by
    rw [references]
    split
    · have hhere : ∀ x ∈ (tokenNames r cs).map fun name =>
          (⟨name, Text.byteOffset text i⟩ : Reference), x.position = Text.byteOffset text i := by
        intro x hx
        obtain ⟨name, _, rfl⟩ := List.mem_map.mp hx
        rfl
      refine ⟨List.pairwise_of_forall_mem_list fun x hx y hy => ?_, fun x hx => ⟨?_, ?_⟩⟩
      · exact Nat.le_of_eq ((hhere x hx).trans (hhere y hy).symm)
      · exact Nat.le_of_eq (hhere x hx).symm
      · rw [hhere x hx]
        exact byteOffset_mono text (Nat.le_add_right ..)
    · exact spread_referencesAll ps i (i + cs.length) h

theorem spread_referencesAll : ∀ (ps : List Part) (lo hi : Nat), Parse.AllInOrder lo ps hi →
    Spread text lo hi (referencesAll text ps)
  | [], _, _, _ => ⟨.nil, fun _ hr => absurd hr List.not_mem_nil⟩
  | p :: ps, lo, hi, h => by
    obtain ⟨hstart, hp, hps⟩ := h
    have hfirst := spread_references p hp
    have hrest := spread_referencesAll ps _ _ hps
    have hlo := byteOffset_mono text hstart
    have hmid := byteOffset_mono text (Nat.le_add_right p.start p.text.length)
    have hhi := byteOffset_mono text hps.le
    refine ⟨List.pairwise_append.mpr ⟨hfirst.sorted, hrest.sorted, fun r hr r' hr' => ?_⟩,
      fun r hr => ?_⟩
    · exact Nat.le_trans (hfirst.within r hr).2 (hrest.within r' hr').1
    · rcases List.mem_append.mp hr with hr | hr
      · have hwithin := hfirst.within r hr
        exact ⟨Nat.le_trans hlo hwithin.1, Nat.le_trans hwithin.2 hhi⟩
      · have hwithin := hrest.within r hr
        exact ⟨Nat.le_trans hlo (Nat.le_trans hmid hwithin.1), hwithin.2⟩

end

end references

/-! ## Readings with and without names -/

/-- Two readings of the same, of which the second knows some names only: it comes to what the first
one comes to, or to the first reference whose name it does not know. The names of the result are
those read before and those referred to. -/
inductive Checked {α : Type} (s : Source) (before : List String) (names : α → List String)
    (refs : List Reference) : Except ScriptError α → Except ScriptError α → Prop where
  | error (e e' : ScriptError) : Checked s before names refs (.error e) (.error e')
  | ok {a : α} : names a = before ++ refs.map Reference.name →
      (∀ r ∈ refs, s.knows r.name = true) → Checked s before names refs (.ok a) (.ok a)
  | unknown {a : α} {first rest : List Reference} {r : Reference} :
      names a = before ++ refs.map Reference.name → refs = first ++ r :: rest →
      (∀ x ∈ first, s.knows x.name = true) → s.knows r.name = false →
      Checked s before names refs (.ok a) (.error (.unresolved r.name r.position))

namespace Checked

variable {α β : Type} {s : Source} {before : List String} {nx : α → List String}
  {names : β → List String} {rx rf : List Reference} {x x' : Except ScriptError α}

theorem pure {b : β} (h : names b = before) : Checked s before names [] (.ok b) (.ok b) :=
  .ok (by rw [h, List.map_nil, List.append_nil]) fun _ hr => absurd hr List.not_mem_nil

theorem bind {f f' : α → Except ScriptError β} (hx : Checked s [] nx rx x x')
    (hf : ∀ a, Checked s (before ++ nx a) names rf (f a) (f' a)) :
    Checked s before names (rx ++ rf) (x >>= f) (x' >>= f') := by
  have hall : ∀ a b, nx a = [] ++ rx.map Reference.name →
      names b = before ++ nx a ++ rf.map Reference.name →
      names b = before ++ (rx ++ rf).map Reference.name := by
    intro a b ha hb
    rw [hb, ha, List.nil_append, List.map_append, List.append_assoc]
  cases hx with
  | error e e' => exact .error e e'
  | @ok a ha hknown =>
    show Checked s before names (rx ++ rf) (f a) (f' a)
    have hf := hf a
    generalize f a = y at hf
    generalize f' a = y' at hf
    cases hf with
    | error e e' => exact .error e e'
    | ok hb hrest => exact .ok (hall a _ ha hb) fun r hr =>
        (List.mem_append.mp hr).elim (hknown r) (hrest r)
    | unknown hb hsplit hfirst hr =>
      refine .unknown (hall a _ ha hb) (by rw [hsplit, ← List.append_assoc]) (fun r hr => ?_) hr
      exact (List.mem_append.mp hr).elim (hknown r) (hfirst r)
  | @unknown a first rest r ha hsplit hfirst hr =>
    show Checked s before names (rx ++ rf) (f a) _
    have hf := hf a
    generalize f a = y at hf
    generalize f' a = y' at hf
    have hsplit : rx ++ rf = first ++ r :: (rest ++ rf) := by
      rw [hsplit, List.append_assoc, List.cons_append]
    cases hf with
    | error e e' => exact .error e _
    | ok hb _ => exact .unknown (hall a _ ha hb) hsplit hfirst hr
    | unknown hb _ _ _ => exact .unknown (hall a _ ha hb) hsplit hfirst hr

theorem map {f : α → β} (hx : Checked s [] nx rx x x') (hf : ∀ a, names (f a) = before ++ nx a) :
    Checked s before names rx (f <$> x) (f <$> x') := by
  have hbind : Checked s before names (rx ++ []) (x >>= fun a => .ok (f a))
      (x' >>= fun a => .ok (f a)) := hx.bind fun a => pure (hf a)
  rw [List.append_nil] at hbind
  cases x <;> cases x' <;> exact hbind

theorem mapM {f f' : Part → Except ScriptError α} {refs : Part → List Reference} {ps : List Part}
    (h : ∀ p ∈ ps, Checked s [] nx (refs p) (f p) (f' p)) :
    Checked s [] (fun as => as.flatMap nx) (ps.flatMap refs) (ps.mapM f) (ps.mapM f') := by
  induction ps with
  | nil => exact pure rfl
  | cons p ps ih =>
    rw [List.mapM_cons, List.mapM_cons, List.flatMap_cons]
    refine (h p (List.mem_cons_self ..)).bind fun a => ?_
    have hrest := ih fun q hq => h q (List.mem_cons_of_mem p hq)
    exact map hrest fun as => List.flatMap_cons ..

end Checked

/-! ## Single operations -/

section readers

variable (s : Source) {p : Part}

theorem checkNames_checked (p : Part) (names : List String) :
    Checked s [] (fun _ => names) (names.map fun name => ⟨name, s.position p⟩)
      (checkNames ⟨s.text, none⟩ p names) (checkNames s p names) := by
  have hnames : names = [] ++ (names.map fun name =>
      (⟨name, s.position p⟩ : Reference)).map Reference.name := by simp [Function.comp_def]
  rw [checkNames_none, checkNames]
  split
  · rename_i name hfind
    obtain ⟨hname, first, rest, hsplit, hfirst⟩ := List.find?_eq_some_iff_append.mp hfind
    let refer (name : String) : Reference := ⟨name, s.position p⟩
    have hrefs : names.map refer = first.map refer ++ refer name :: rest.map refer := by
      rw [hsplit, List.map_append, List.map_cons]
    refine .unknown hnames hrefs (fun x hx => ?_) (by simpa using hname)
    obtain ⟨other, hother, rfl⟩ := List.mem_map.mp hx
    simpa using hfirst other hother
  · rename_i hnone
    refine .ok hnames fun r hr => ?_
    obtain ⟨name, hname, rfl⟩ := List.mem_map.mp hr
    simpa using List.find?_eq_none.mp hnone name hname

/-- Checking the names of what has been read. -/
theorem returned_checked (p : Part) {α : Type} (names : α → List String) (a : α) :
    Checked s [] names ((names a).map fun name => ⟨name, s.position p⟩)
      (checkNames ⟨s.text, none⟩ p (names a) >>= fun _ => .ok a)
      (checkNames s p (names a) >>= fun _ => .ok a) := by
  rw [← List.append_nil (List.map _ _)]
  exact (checkNames_checked s p (names a)).bind fun _ => .pure rfl

theorem reference_checked (hp : p.rule = name) :
    Checked s [] (fun n => [n]) (references s.text p) (reference ⟨s.text, none⟩ p)
      (reference s p) := by
  rw [references_of_token (by rw [hp]; rfl), hp]
  exact returned_checked s p (fun n => [n]) (String.ofList p.text)

theorem readTemplate_checked (hp : p.rule = template) (needsFoot : Bool) :
    Checked s [] Template.askedNames (references s.text p)
      (readTemplate ⟨s.text, none⟩ needsFoot p) (readTemplate s needsFoot p) := by
  rw [references_of_token (by rw [hp]; rfl), hp, tokenNames, readTemplate, readTemplate]
  cases Template.parse p.text with
  | error f => exact .error _ _
  | ok t =>
    dsimp only
    by_cases hfoot : (needsFoot && t.foot?.isNone) = true
    · rw [if_pos hfoot, if_pos hfoot]
      exact .error _ _
    · rw [if_neg hfoot, if_neg hfoot]
      exact returned_checked s p Template.askedNames t

variable (h : p.Spelled scriptGrammar)

include h

theorem readOperand_checked (hp : p.rule = operand) :
    Checked s [] Operand.askedNames (references s.text p) (readOperand ⟨s.text, none⟩ p)
      (readOperand s p) := by
  rw [references_of_parts (by rw [hp]; decide)]
  have hparts := (h.parts (by rw [hp]; decide)).1
  rw [hp] at hparts
  unfold readOperand
  obtain ⟨q, hq, hrule⟩ | ⟨q, hq, hrule⟩ := hparts
  all_goals
    rw [hq, List.flatMap_singleton]
    obtain ⟨r, i, cs, ps⟩ := q
    obtain rfl := hrule
  · exact (readTemplate_checked s rfl false).map fun _ => rfl
  · exact (reference_checked s rfl).map fun _ => rfl

theorem readPlace_checked (hp : p.rule = position) :
    Checked s [] (fun place => [place.anchor]) (references s.text p) (readPlace ⟨s.text, none⟩ p)
      (readPlace s p) := by
  rw [references_of_parts (by rw [hp]; decide)]
  have hparts := (h.parts (by rw [hp]; decide)).1
  rw [hp] at hparts
  obtain ⟨_, _, ⟨op, rfl, hop⟩, ⟨anchor, rfl, hanchor⟩, hparts⟩ := hparts
  have hrefs : p.parts.flatMap (references s.text) = references s.text anchor ++ [] := by
    rw [hparts, List.flatMap_append, List.flatMap_singleton, List.flatMap_singleton,
      references_eq_nil hop rfl fun _ => rfl, List.nil_append, List.append_nil]
  rw [hrefs]
  unfold readPlace
  rw [hparts]
  refine (reference_checked s hanchor).bind fun name => ?_
  split
  · exact .pure rfl
  · split
    · exact .pure rfl
    · -- reading a child position refers to nothing
      have hposition : Checked s [] (fun _ : Int => []) [] (childPosition ⟨s.text, none⟩ op)
          (childPosition s op) := by
        unfold childPosition
        split
        · split
          · exact .error _ _
          · split
            · exact .error _ _
            · exact .pure rfl
        · exact .error _ _
      exact hposition.bind fun i => .pure rfl

theorem readLabel_checked (hp : p.rule = newLabel) :
    Checked s [] Relabelling.askedNames (references s.text p) (readLabel ⟨s.text, none⟩ p)
      (readLabel s p) := by
  rw [references_of_parts (by rw [hp]; decide)]
  obtain ⟨hparts, hspelled⟩ := h.parts (by rw [hp]; decide)
  rw [hp] at hparts
  unfold readLabel
  obtain (⟨q, hq, hrule⟩ | ⟨q, hq, hrule⟩) | ⟨q, hq, hrule⟩ := hparts
  all_goals
    have hinner := hspelled q (by rw [hq]; exact List.mem_singleton_self q)
    rw [hq, List.flatMap_singleton]
    obtain ⟨r, i, cs, ps⟩ := q
    obtain rfl := hrule
  · have hkind : relabelRegex.kind ≠ .token := by decide
    obtain ⟨_, _, ⟨_, _, ⟨_, _, ⟨_, _, rfl, ⟨regex, rfl, hregex⟩, rfl⟩, rfl, rfl⟩,
      ⟨replacement, rfl, hreplacement⟩, rfl⟩, rfl, hparts⟩ := (hinner.parts hkind).1
    obtain rfl : ps = [regex, replacement] := hparts
    have hrefs : references s.text (.node relabelRegex i cs [regex, replacement]) =
        (tokenNames .replacement replacement.text).map
          fun name => ⟨name, s.position replacement⟩ := by
      rw [references_of_parts (p := .node relabelRegex i cs [regex, replacement]) hkind,
        Parse.parts, List.flatMap_cons, List.flatMap_singleton,
        references_eq_nil hregex rfl fun _ => rfl, List.nil_append,
        references_of_token (by rw [hreplacement]; rfl), hreplacement]
      rfl
    rw [hrefs, tokenNames]
    dsimp only
    cases Regex.compile? (String.ofList (Text.unslash regex.text)) with
    | none => exact .error _ _
    | some r =>
      cases Replacement.parse replacement.text with
      | error f => exact .error _ _
      | ok parts =>
        exact returned_checked s replacement Relabelling.askedNames (.matching r parts)
  · have hkind : quoted.kind ≠ .token := by decide
    obtain ⟨_, _, ⟨_, _, rfl, ⟨body, rfl, hbody⟩, rfl⟩, rfl, hparts⟩ := (hinner.parts hkind).1
    obtain rfl : ps = [body] := hparts
    have hrefs : references s.text (.node quoted i cs [body]) = [] := by
      rw [references_of_parts (p := .node quoted i cs [body]) hkind, Parse.parts,
        List.flatMap_singleton, references_eq_nil hbody rfl fun _ => rfl]
    rw [hrefs]
    exact .pure rfl
  · exact .pure rfl

omit h in
theorem referencesTo_checked {ps : List Part} (hps : ∀ p ∈ ps, p.rule = name) :
    Checked s [] (fun names => names.flatMap fun n => [n]) (ps.flatMap (references s.text))
      (ps.mapM (reference ⟨s.text, none⟩)) (ps.mapM (reference s)) :=
  .mapM fun p hp => reference_checked s (hps p hp)

theorem readEdit_checked (hp : p.rule ∈ operationRules) (hno : p.rule ≠ ifExists) :
    Checked s [] Operation.referredNames (references s.text p) (readEdit ⟨s.text, none⟩ p)
      (readEdit s p) := by
  obtain ⟨r, i, cs, ps⟩ := p
  have hr : r ∈ operationRules := hp
  have hkind : r.kind ≠ .token := by
    rw [kind_of_operation hr]
    decide
  obtain ⟨hparts, hspelled⟩ := h.parts hkind
  cases r with
  | delete | prune | coindex =>
    obtain ⟨_, _, ⟨word, rfl, hword⟩, ⟨_, rest, ⟨first, rfl, hfirst⟩, hrest, rfl⟩, hps⟩ := hparts
    obtain rfl : ps = word :: first :: rest := hps
    have hnames : ∀ q ∈ first :: rest, q.rule = name :=
      List.forall_mem_cons.mpr ⟨hfirst, hrest.many_rule⟩
    rw [references_of_keyword hkind hword rfl fun _ => rfl]
    exact (referencesTo_checked s hnames).map fun names => by simp [Operation.referredNames]
  | excise =>
    obtain ⟨_, _, ⟨_, _, ⟨word, rfl, hword⟩, ⟨top, rfl, htop⟩, rfl⟩, ⟨bottom, rfl, hbottom⟩, hps⟩ :=
      hparts
    obtain rfl : ps = [word, top, bottom] := hps
    rw [references_of_keyword hkind hword rfl fun _ => rfl]
    exact (reference_checked s htop).bind fun _ => (reference_checked s hbottom).bind fun _ =>
      .pure rfl
  | relabel =>
    obtain ⟨_, _, ⟨_, _, ⟨word, rfl, hword⟩, ⟨node, rfl, hnode⟩, rfl⟩, ⟨label, rfl, hlabel⟩, hps⟩ :=
      hparts
    obtain rfl : ps = [word, node, label] := hps
    have hspelledLabel := hspelled label (by simp [Parse.parts])
    rw [references_of_keyword hkind hword rfl fun _ => rfl]
    exact (reference_checked s hnode).bind fun _ =>
      (readLabel_checked s hspelledLabel hlabel).bind fun _ => .pure rfl
  | insert =>
    obtain ⟨_, _, ⟨_, _, ⟨word, rfl, hword⟩, ⟨what, rfl, hwhat⟩, rfl⟩, ⟨place, rfl, hplace⟩, hps⟩ :=
      hparts
    obtain rfl : ps = [word, what, place] := hps
    have hspelledWhat := hspelled what (by simp [Parse.parts])
    have hspelledPlace := hspelled place (by simp [Parse.parts])
    rw [references_of_keyword hkind hword rfl fun _ => rfl]
    exact (readOperand_checked s hspelledWhat hwhat).bind fun _ =>
      (readPlace_checked s hspelledPlace hplace).bind fun _ => .pure rfl
  | move =>
    obtain ⟨_, _, ⟨_, _, ⟨word, rfl, hword⟩, ⟨node, rfl, hnode⟩, rfl⟩, ⟨place, rfl, hplace⟩, hps⟩ :=
      hparts
    obtain rfl : ps = [word, node, place] := hps
    have hspelledPlace := hspelled place (by simp [Parse.parts])
    rw [references_of_keyword hkind hword rfl fun _ => rfl]
    exact (reference_checked s hnode).bind fun _ =>
      (readPlace_checked s hspelledPlace hplace).bind fun _ => .pure rfl
  | replace =>
    obtain ⟨_, _, ⟨_, _, ⟨word, rfl, hword⟩, ⟨node, rfl, hnode⟩, rfl⟩,
      ⟨_, rest, ⟨first, rfl, hfirst⟩, hrest, rfl⟩, hps⟩ := hparts
    obtain rfl : ps = word :: node :: first :: rest := hps
    have hoperands : ∀ q ∈ first :: rest, q.rule = operand :=
      List.forall_mem_cons.mpr ⟨hfirst, hrest.many_rule⟩
    have hread : ∀ q ∈ first :: rest, Checked s [] Operand.askedNames (references s.text q)
        (readOperand ⟨s.text, none⟩ q) (readOperand s q) := fun q hq =>
      readOperand_checked s (hspelled q (List.mem_cons_of_mem _ (List.mem_cons_of_mem _ hq)))
        (hoperands q hq)
    rw [references_of_keyword hkind hword rfl fun _ => rfl, List.flatMap_cons,
      ← List.append_nil (List.flatMap _ (first :: rest))]
    exact (reference_checked s hnode).bind fun _ => (Checked.mapM hread).bind fun _ => .pure rfl
  | adjoin =>
    obtain ⟨_, _, ⟨_, _, ⟨word, rfl, hword⟩, ⟨tree, rfl, htree⟩, rfl⟩,
      ⟨target, rfl, htarget⟩, hps⟩ := hparts
    obtain rfl : ps = [word, tree, target] := hps
    rw [references_of_keyword hkind hword rfl fun _ => rfl]
    exact (readTemplate_checked s htree true).bind fun _ =>
      (reference_checked s htarget).bind fun _ => .pure rfl
  | createSubtree =>
    obtain ⟨_, _, ⟨_, _, ⟨_, _, ⟨word, rfl, hword⟩, ⟨tree, rfl, htree⟩, rfl⟩,
      ⟨first, rfl, hfirst⟩, rfl⟩, ⟨last, rfl, hlast⟩ | rfl, hps⟩ := hparts
    · obtain rfl : ps = [word, tree, first, last] := hps
      rw [references_of_keyword hkind hword rfl fun _ => rfl]
      exact (readTemplate_checked s htree true).bind fun _ =>
        (reference_checked s hfirst).bind fun _ => (reference_checked s hlast).bind fun _ =>
          .pure (by simp [Operation.referredNames])
    · obtain rfl : ps = [word, tree, first] := hps
      rw [references_of_keyword hkind hword rfl fun _ => rfl]
      exact (readTemplate_checked s htree true).bind fun _ =>
        (reference_checked s hfirst).bind fun _ => .pure rfl
  | ifExists => exact absurd rfl hno
  | _ => exact absurd hr (by decide)

omit h in
/-- An operation has one part, of one of the kinds of operations. -/
theorem part_of_operation {i : Nat} {cs : List Char} {ps : List Part}
    (h : (Parse.node operation i cs ps).Spelled scriptGrammar) :
    ∃ q, ps = [q] ∧ q.rule ∈ operationRules ∧ q.Spelled scriptGrammar := by
  have hkind : operation.kind ≠ .token := by decide
  obtain ⟨hparts, hspelled⟩ := h.parts hkind
  have hone : ∃ q, ps = [q] ∧ q.rule ∈ operationRules := by
    obtain (((((((((⟨q, hq, hr⟩ | ⟨q, hq, hr⟩) | ⟨q, hq, hr⟩) | ⟨q, hq, hr⟩) | ⟨q, hq, hr⟩) |
      ⟨q, hq, hr⟩) | ⟨q, hq, hr⟩) | ⟨q, hq, hr⟩) | ⟨q, hq, hr⟩) | ⟨q, hq, hr⟩) |
      ⟨q, hq, hr⟩ := hparts
    all_goals exact ⟨q, hq, by rw [hr]; decide⟩
  obtain ⟨q, rfl, hq⟩ := hone
  exact ⟨q, rfl, hq, hspelled q (List.mem_singleton_self q)⟩

omit h in
/-- The parts of a guard: perhaps a negation, the name, and what is guarded. -/
theorem parts_of_guard {i : Nat} {cs : List Char} {ps : List Part}
    (h : (Parse.node ifExists i cs ps).Spelled scriptGrammar) :
    ∃ words node guarded, ps = words ++ [node, guarded] ∧
      ((∃ w w', words = [w, w']) ∨ ∃ w w' w'', words = [w, w', w'']) ∧
      words.flatMap (references s.text) = [] ∧ node.rule = name ∧ guarded.rule = operation ∧
      guarded.Spelled scriptGrammar := by
  have hkind : ifExists.kind ≠ .token := by decide
  obtain ⟨hparts, hspelled⟩ := h.parts hkind
  obtain ⟨_, _, ⟨_, _, ⟨_, _, ⟨_, _, ⟨word, rfl, hword⟩, ⟨no, rfl, hno⟩ | rfl, rfl⟩,
    ⟨again, rfl, hagain⟩, rfl⟩, ⟨node, rfl, hnode⟩, rfl⟩, ⟨guarded, rfl, hguarded⟩, hps⟩ := hparts
  all_goals
    obtain rfl : ps = _ := hps
    have hspelledGuarded := hspelled guarded (by simp [Parse.parts])
  · refine ⟨[word, no, again], node, guarded, rfl, .inr ⟨_, _, _, rfl⟩, ?_, hnode, hguarded,
      hspelledGuarded⟩
    simp [references_eq_nil hword rfl fun _ => rfl, references_eq_nil hno rfl fun _ => rfl,
      references_eq_nil hagain rfl fun _ => rfl]
  · refine ⟨[word, again], node, guarded, rfl, .inl ⟨_, _, rfl⟩, ?_, hnode, hguarded,
      hspelledGuarded⟩
    simp [references_eq_nil hword rfl fun _ => rfl, references_eq_nil hagain rfl fun _ => rfl]

omit h in
/-- What is known of the parts of an operation with a guard. -/
theorem guard_of_operation (words : List Part) {i i' : Nat} {cs cs' : List Char}
    {node guarded : Part}
    (h : (Parse.node operation i cs [.node ifExists i' cs' (words ++ [node, guarded])]).Spelled
      scriptGrammar) :
    node.rule = name ∧ guarded.rule = operation ∧ guarded.Spelled scriptGrammar ∧
      references s.text (.node operation i cs [.node ifExists i' cs' (words ++ [node, guarded])]) =
        references s.text node ++ (references s.text guarded ++ []) := by
  obtain ⟨q, hq, -, hspelled⟩ := part_of_operation h
  obtain rfl := List.singleton_inj.mp hq
  obtain ⟨words', node', guarded', hps, -, hnone, hnode, hguarded, hrest⟩ :=
    parts_of_guard s hspelled
  obtain ⟨rfl, htail⟩ := List.append_inj' hps rfl
  obtain ⟨rfl, rfl⟩ : node = node' ∧ guarded = guarded' := by simpa using htail
  have hoperation : operation.kind ≠ .token := by decide
  have hguard : ifExists.kind ≠ .token := by decide
  refine ⟨hnode, hguarded, hrest, ?_⟩
  rw [references_of_parts (p := .node operation i cs _) hoperation, Parse.parts,
    List.flatMap_singleton, references_of_parts (p := .node ifExists i' cs' _) hguard,
    Parse.parts, List.flatMap_append, hnone, List.nil_append, List.flatMap_cons,
    List.flatMap_singleton, List.append_nil]

/-- **An operation is read for a pattern as it is without one**, up to the first of its references
that is not known. -/
theorem readOperation_checked (hp : p.rule = operation) :
    Checked s [] Operation.referredNames (references s.text p) (readOperation ⟨s.text, none⟩ p)
      (readOperation s p) := by
  induction p using readOperation.induct with
  | case1 i cs i' cs' word again node guarded ih =>
    obtain ⟨hnode, hguarded, hrest, hrefs⟩ := guard_of_operation s [word, again] h
    refine hrefs ▸ ?_
    exact (reference_checked s hnode).bind fun _ => (ih hrest hguarded).bind fun _ => .pure rfl
  | case2 i cs i' cs' word no again node guarded ih =>
    obtain ⟨hnode, hguarded, hrest, hrefs⟩ := guard_of_operation s [word, no, again] h
    refine hrefs ▸ ?_
    exact (reference_checked s hnode).bind fun _ => (ih hrest hguarded).bind fun _ => .pure rfl
  | case3 i cs q hguard hnoGuard =>
    obtain ⟨q', hq, hrule, hspelled⟩ := part_of_operation h
    obtain rfl := List.singleton_inj.mp hq
    have hno : q.rule ≠ ifExists := by
      obtain ⟨r, i', cs', ps⟩ := q
      rintro rfl
      obtain ⟨words, node, guarded, rfl, ⟨w, w', rfl⟩ | ⟨w, w', w'', rfl⟩, -⟩ :=
        parts_of_guard s hspelled
      · exact hguard _ _ _ _ _ _ rfl
      · exact hnoGuard _ _ _ _ _ _ _ rfl
    have hoperation : operation.kind ≠ .token := by decide
    have hrefs : references s.text (.node operation i cs [q]) = references s.text q := by
      rw [references_of_parts (p := .node operation i cs [q]) hoperation, Parse.parts,
        List.flatMap_singleton]
    rw [readOperation_edit _ hno, readOperation_edit _ hno, hrefs]
    exact readEdit_checked s hspelled hrule hno
  | case4 q hguard hnoGuard hedit =>
    obtain ⟨r, i, cs, ps⟩ := q
    obtain rfl : r = operation := hp
    obtain ⟨q, rfl, -, -⟩ := part_of_operation h
    exact absurd rfl (hedit i cs q)

end readers

end ScriptReader

end Constituency
