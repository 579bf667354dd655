import Constituency.Bracket.Parser
import Constituency.Bracket.Printer
import Constituency.Proofs.Tree.Traversal

/-!
# What the reader makes of a written constituent

The reader knows the tree only by its tokens, so a label has to be one token to be read back: it
must have no parentheses and no blanks in it (`Label.IsAtom`). Every label that the reader itself
gives is of this kind, since atoms are.

If the labels of a constituent are atoms or empty, the tokens of its written form are determined,
and so is what they do to a reader inside brackets: the innermost open node takes the constituent up
(`Frame.absorb`). An inner node comes back as one more child. A leaf does so too, with two
exceptions. An empty label leaves no trace; and directly after an opening parenthesis an atom is
taken for the label of the open node.
-/

namespace Constituency

/-- A label that is read as one token, or as none if it is empty. -/
def Label.IsAtom (l : Label) : Prop := ∀ c ∈ l.toList, Bracket.isDelimiter c = false

/-- All labels of a constituent are atoms. -/
def Rose.HasAtoms (c : Constituent) : Prop := ∀ l ∈ c.preorder, Label.IsAtom l

namespace Rose

theorem hasAtoms_node {l : Label} {cs : List Constituent} :
    HasAtoms (.node l cs) ↔ l.IsAtom ∧ ∀ c ∈ cs, HasAtoms c := by
  unfold HasAtoms
  rw [preorder, preorderAll_eq_flatMap]
  constructor
  · intro h
    exact ⟨h l (List.mem_cons_self ..), fun c hc k hk =>
      h k (List.mem_cons_of_mem l (List.mem_flatMap.mpr ⟨c, hc, hk⟩))⟩
  · rintro ⟨hl, hcs⟩ k hk
    rcases List.mem_cons.mp hk with rfl | hk
    · exact hl
    · obtain ⟨c, hc, hk⟩ := List.mem_flatMap.mp hk
      exact hcs c hc k hk

end Rose

namespace Bracket

open Rose

/-! ## The labels that the reader gives -/

/-- A frame with atoms for labels. -/
structure Frame.HasAtoms (f : Frame) : Prop where
  label : Label.IsAtom f.label
  children : ∀ c ∈ f.children, Rose.HasAtoms c

/-- Only atoms for labels in what has been read. -/
def Progress.HasAtoms : Progress → Prop
  | .reading frames => ∀ f ∈ frames, f.HasAtoms
  | .finished c => Rose.HasAtoms c

theorem Frame.hasAtoms_fresh : Frame.fresh.HasAtoms :=
  ⟨fun c hc => absurd hc (by simp [fresh]), fun c hc => absurd hc (by simp [fresh])⟩

theorem Frame.HasAtoms.add {f : Frame} {c : Constituent} (hf : f.HasAtoms) (hc : c.HasAtoms) :
    (f.add c).HasAtoms :=
  ⟨hf.label, fun d hd => (List.mem_cons.mp hd).elim (fun heq => heq ▸ hc) (hf.children d)⟩

theorem Frame.HasAtoms.close {f : Frame} (hf : f.HasAtoms) : Rose.HasAtoms f.close :=
  hasAtoms_node.mpr ⟨hf.label, fun c hc => hf.children c (List.mem_reverse.mp hc)⟩

theorem Progress.hasAtoms_deliver {c : Constituent} {fs : List Frame} (hc : c.HasAtoms)
    (hfs : ∀ f ∈ fs, f.HasAtoms) : (Progress.deliver c fs).HasAtoms := by
  cases fs with
  | nil => exact hc
  | cons f fs =>
    intro g hg
    rcases List.mem_cons.mp hg with rfl | hg
    · exact (hfs f (List.mem_cons_self ..)).add hc
    · exact hfs g (List.mem_cons_of_mem f hg)

/-- An atom among the tokens is free of delimiters. -/
theorem tokensFrom_atoms : ∀ (cs : List Char) (line : Nat) (pending : List Char),
    (∀ c ∈ pending, isDelimiter c = false) → ∀ t ∈ tokensFrom line pending cs,
      ∀ a, t.token = .atom a → ∀ c ∈ a, isDelimiter c = false
  | [], line, pending, hp, t, ht, a, ha => by
    rw [tokensFrom, pendingAtom] at ht
    split at ht
    · exact absurd ht (by simp)
    · obtain rfl := List.mem_singleton.mp ht
      obtain rfl := Token.atom.inj ha
      exact fun c hc => hp c (List.mem_reverse.mp hc)
  | c :: cs, line, pending, hp, t, ht, a, ha => by
    rw [tokensFrom] at ht
    split at ht
    · have hrest := tokensFrom_atoms cs (if c == '\n' then line + 1 else line) []
        (fun _ hx => absurd hx (by simp))
      rcases List.mem_append.mp ht with ht | ht
      · rw [pendingAtom] at ht
        split at ht
        · exact absurd ht (by simp)
        · obtain rfl := List.mem_singleton.mp ht
          obtain rfl := Token.atom.inj ha
          exact fun x hx => hp x (List.mem_reverse.mp hx)
      · -- a parenthesis is no atom, and a blank is no token
        split at ht
        · rcases List.mem_cons.mp ht with rfl | ht
          · exact absurd ha (by simp)
          · exact hrest t ht a ha
        · split at ht
          · rcases List.mem_cons.mp ht with rfl | ht
            · exact absurd ha (by simp)
            · exact hrest t ht a ha
          · exact hrest t ht a ha
    · rename_i hc
      refine tokensFrom_atoms cs line (c :: pending) ?_ t ht a ha
      intro x hx
      rcases List.mem_cons.mp hx with rfl | hx
      · simpa using hc
      · exact hp x hx

/-- One more token keeps the labels atoms. -/
theorem Progress.hasAtoms_step {p q : Progress} {t : Located} (hp : p.HasAtoms)
    (ht : ∀ a, t.token = .atom a → ∀ c ∈ a, isDelimiter c = false) (h : p.step t = .ok q) :
    q.HasAtoms := by
  have hleaf : ∀ a, t.token = .atom a → Rose.HasAtoms (.node (String.ofList a) []) := by
    intro a ha
    refine hasAtoms_node.mpr ⟨?_, fun _ hc => absurd hc (by simp)⟩
    intro c hc
    exact ht a ha c (by rwa [String.toList_ofList] at hc)
  obtain ⟨line, token⟩ := t
  cases p with
  | finished c => exact absurd h (by simp [step])
  | reading frames =>
    cases token with
    | opening =>
      obtain rfl := Except.ok.inj h
      intro f hf
      rcases List.mem_cons.mp hf with rfl | hf
      · exact Frame.hasAtoms_fresh
      · exact hp f hf
    | closing =>
      cases frames with
      | nil => exact absurd h (by simp [step])
      | cons f fs =>
        obtain rfl := Except.ok.inj h
        exact Progress.hasAtoms_deliver (hp f (List.mem_cons_self ..)).close
          fun g hg => hp g (List.mem_cons_of_mem f hg)
    | atom a =>
      cases frames with
      | nil =>
        obtain rfl := Except.ok.inj h
        exact hleaf a rfl
      | cons f fs =>
        have hf := hp f (List.mem_cons_self ..)
        have hfs : ∀ g ∈ fs, g.HasAtoms := fun g hg => hp g (List.mem_cons_of_mem f hg)
        simp only [step] at h
        split at h
        · obtain rfl := Except.ok.inj h
          intro g hg
          rcases List.mem_cons.mp hg with rfl | hg
          · exact ⟨(hasAtoms_node.mp (hleaf a rfl)).1, hf.children⟩
          · exact hfs g hg
        · obtain rfl := Except.ok.inj h
          intro g hg
          rcases List.mem_cons.mp hg with rfl | hg
          · exact hf.add (hleaf a rfl)
          · exact hfs g hg

theorem Progress.hasAtoms_foldlM {p q : Progress} : ∀ {ts : List Located}, p.HasAtoms →
    (∀ t ∈ ts, ∀ a, t.token = .atom a → ∀ c ∈ a, isDelimiter c = false) →
    ts.foldlM Progress.step p = .ok q → q.HasAtoms := by
  intro ts
  induction ts generalizing p with
  | nil =>
    intro hp _ h
    obtain rfl := Except.ok.inj h
    exact hp
  | cons t ts ih =>
    intro hp hts h
    rw [List.foldlM_cons] at h
    cases hstep : p.step t with
    | error e =>
      rw [hstep] at h
      exact absurd h (by simp [bind, Except.bind])
    | ok r =>
      rw [hstep] at h
      have hr := Progress.hasAtoms_step hp (hts t (List.mem_cons_self ..)) hstep
      exact ih hr (fun x hx => hts x (List.mem_cons_of_mem t hx)) h

/-- **Every label that is read is an atom**, and what is read is not a leaf without a label. -/
theorem parse_some {cs : List Char} {c : Constituent} (h : parse cs = .ok (some c)) :
    c.HasAtoms ∧ c ≠ .node "" [] := by
  unfold parse at h
  cases hread : (tokens cs).foldlM Progress.step (Progress.reading []) with
  | error e =>
    rw [hread] at h
    exact absurd h (by simp [bind, Except.bind])
  | ok p =>
    rw [hread] at h
    have hstart : (Progress.reading []).HasAtoms := fun _ hf => absurd hf (by simp)
    have hp := Progress.hasAtoms_foldlM hstart
      (tokensFrom_atoms cs 1 [] fun _ hx => absurd hx (by simp)) hread
    cases p with
    | reading frames =>
      cases frames with
      | nil => exact absurd h (by simp [bind, Except.bind, Progress.result])
      | cons f fs => exact absurd h (by simp [bind, Except.bind, Progress.result])
    | finished d =>
      obtain ⟨l, ds⟩ := d
      simp only [bind, Except.bind, Progress.result] at h
      split at h
      · exact absurd h (by simp)
      · rename_i hne
        obtain rfl := Option.some.inj (Except.ok.inj h)
        refine ⟨hp, fun heq => hne ?_⟩
        injection heq with hl hds
        rw [hl, hds]
        rfl

/-! ## Reading on -/

/-- Reads on from a line and a state. -/
def readFrom (line : Nat) (p : Progress) (cs : List Char) : Except ParseError Progress :=
  (tokensFrom line [] cs).foldlM Progress.step p

/-- The end of a text, or a character that ends an atom. -/
def EndsAtom (cs : List Char) : Prop := ∀ c, cs.head? = some c → isDelimiter c = true

theorem endsAtom_cons {c : Char} {cs : List Char} (h : isDelimiter c = true) :
    EndsAtom (c :: cs) := by
  intro d hd
  obtain rfl := Option.some.inj hd
  exact h

theorem endsAtom_writeAllOnto {k : List Char} (hk : EndsAtom k) (cs : List Constituent) :
    EndsAtom (writeAllOnto k cs) := by
  cases cs with
  | nil => exact hk
  | cons c cs => exact endsAtom_cons (by decide)

/-- The characters of an atom are taken up one by one. -/
theorem tokensFrom_append (line : Nat) : ∀ (a pending k : List Char),
    (∀ c ∈ a, isDelimiter c = false) →
      tokensFrom line pending (a ++ k) = tokensFrom line (a.reverse ++ pending) k
  | [], _, _, _ => rfl
  | c :: cs, pending, k, h => by
    rw [List.cons_append, tokensFrom, h c (List.mem_cons_self ..), if_neg Bool.false_ne_true,
      tokensFrom_append line cs _ k fun x hx => h x (List.mem_cons_of_mem c hx),
      List.reverse_cons, List.append_assoc]
    rfl

/-- Where an atom ends, it is a token. -/
theorem tokensFrom_of_endsAtom (line : Nat) (pending : List Char) {k : List Char}
    (hk : EndsAtom k) :
    tokensFrom line pending k = pendingAtom line pending ++ tokensFrom line [] k := by
  cases k with
  | nil =>
    rw [tokensFrom, tokensFrom]
    exact (List.append_nil _).symm
  | cons c cs =>
    have hc := hk c rfl
    rw [tokensFrom, tokensFrom, if_pos hc, if_pos hc]
    rfl

section steps

variable (line : Nat) (p : Progress) (f : Frame) (fs : List Frame) (cs : List Char)

theorem readFrom_space : readFrom line p (' ' :: cs) = readFrom line p cs := rfl

theorem readFrom_opening :
    readFrom line (.reading fs) ('(' :: cs) = readFrom line (.reading (.fresh :: fs)) cs := rfl

theorem readFrom_closing :
    readFrom line (.reading (f :: fs)) (')' :: cs) = readFrom line (.deliver f.close fs) cs := rfl

theorem step_atom (a : List Char) :
    Progress.step (.reading (f :: fs)) ⟨line, .atom a⟩ =
      if f.isFresh then .ok (.reading ({ f with label := String.ofList a } :: fs))
      else .ok (.reading (f.add (.node (String.ofList a) []) :: fs)) := rfl

/-- An empty label leaves no token; any other is an atom. -/
theorem readFrom_label {l : Label} {k : List Char} (hl : l.IsAtom) (hk : EndsAtom k) :
    readFrom line p (l.toList ++ k) =
      if l.isEmpty then readFrom line p k
      else p.step ⟨line, .atom l.toList⟩ >>= fun q => readFrom line q k := by
  unfold readFrom
  rw [tokensFrom_append line l.toList [] k hl, List.append_nil, tokensFrom_of_endsAtom _ _ hk,
    pendingAtom, List.isEmpty_reverse, List.reverse_reverse]
  by_cases hempty : l = ""
  · subst hempty
    rfl
  · have hne : l.toList ≠ [] := by simpa using hempty
    rw [if_neg (by simpa using hempty), if_neg (by simpa using hempty)]
    exact List.foldlM_cons ..

end steps

/-! ## Taking up a constituent -/

namespace Frame

mutual

/-- The innermost open node after the written form of a constituent. -/
def absorb (f : Frame) : Constituent → Frame
  | .node l [] =>
    if l.isEmpty then f
    else if f.isFresh then { f with label := l }
    else f.add (.node l [])
  | .node l (c :: cs) => f.add (absorbAll ⟨l, []⟩ (c :: cs)).close

/-- The innermost open node after the written forms of several constituents. -/
def absorbAll (f : Frame) : List Constituent → Frame
  | [] => f
  | c :: cs => (f.absorb c).absorbAll cs

end

end Frame

/-- A label directly after an opening parenthesis is the label of the open node. -/
theorem readFrom_label_of_fresh (line : Nat) (fs : List Frame) {l : Label} {k : List Char}
    (hl : l.IsAtom) (hk : EndsAtom k) :
    readFrom line (.reading (.fresh :: fs)) (l.toList ++ k) =
      readFrom line (.reading (⟨l, []⟩ :: fs)) k := by
  rw [readFrom_label line _ hl hk]
  split
  · rename_i hempty
    rw [String.isEmpty_iff.mp hempty]
    rfl
  · show readFrom line (.reading (⟨String.ofList l.toList, []⟩ :: fs)) k = _
    rw [String.ofList_toList]

mutual

/-- **The innermost open node takes a constituent up.** -/
theorem readFrom_writeOnto (line : Nat) (fs : List Frame) : ∀ (c : Constituent) (f : Frame)
    (k : List Char), c.HasAtoms → EndsAtom k →
      readFrom line (.reading (f :: fs)) (c.writeOnto k) =
        readFrom line (.reading (f.absorb c :: fs)) k
  | .node l [], f, k, hc, hk => by
    rw [writeOnto, readFrom_label line _ (hasAtoms_node.mp hc).1 hk, Frame.absorb]
    split
    · rfl
    · by_cases hfresh : f.isFresh = true
      · rw [if_pos hfresh, step_atom, if_pos hfresh, String.ofList_toList]
        rfl
      · rw [if_neg hfresh, step_atom, if_neg hfresh, String.ofList_toList]
        rfl
  | .node l (c :: cs), f, k, hc, hk => by
    obtain ⟨hl, hcs⟩ := hasAtoms_node.mp hc
    have hk' : EndsAtom (')' :: k) := endsAtom_cons (by decide)
    rw [writeOnto, readFrom_opening, readFrom_label_of_fresh line _ hl
      (endsAtom_writeAllOnto hk' _), readFrom_writeAllOnto line (f :: fs) (c :: cs) _ _ hcs hk',
      readFrom_closing, Frame.absorb]
    rfl

theorem readFrom_writeAllOnto (line : Nat) (fs : List Frame) : ∀ (cs : List Constituent)
    (f : Frame) (k : List Char), (∀ c ∈ cs, c.HasAtoms) → EndsAtom k →
      readFrom line (.reading (f :: fs)) (writeAllOnto k cs) =
        readFrom line (.reading (f.absorbAll cs :: fs)) k
  | [], f, k, _, _ => by rw [writeAllOnto, Frame.absorbAll]
  | c :: cs, f, k, hcs, hk => by
    rw [writeAllOnto, readFrom_space, readFrom_writeOnto line fs c f _
      (hcs c (List.mem_cons_self ..)) (endsAtom_writeAllOnto hk cs),
      readFrom_writeAllOnto line fs cs _ k (fun d hd => hcs d (List.mem_cons_of_mem c hd)) hk,
      Frame.absorbAll]

end

/-- The tree that is read from the written form of a node with children. -/
theorem parse_written_node {l : Label} {c : Constituent} {cs : List Constituent}
    (h : HasAtoms (.node l (c :: cs))) :
    parse (written (.node l (c :: cs))) =
      (Progress.finished ((⟨l, []⟩ : Frame).absorbAll (c :: cs)).close).result
        (lastLine (written (.node l (c :: cs)))) := by
  obtain ⟨hl, hcs⟩ := hasAtoms_node.mp h
  have hk : EndsAtom [')'] := endsAtom_cons (by decide)
  have hread : readFrom 1 (.reading []) (written (.node l (c :: cs))) =
      .ok (.finished ((⟨l, []⟩ : Frame).absorbAll (c :: cs)).close) := by
    rw [written, writeOnto, readFrom_opening, readFrom_label_of_fresh 1 _ hl
      (endsAtom_writeAllOnto hk _), readFrom_writeAllOnto 1 [] (c :: cs) _ _ hcs hk]
    rfl
  unfold parse
  rw [show (tokens (written (.node l (c :: cs)))).foldlM Progress.step (.reading []) = _ from hread]
  rfl

/-- A leaf by itself is read from its label, if it has one. -/
theorem parse_written_leaf {l : Label} (hl : l.IsAtom) (hne : l ≠ "") :
    parse (written (.node l [])) = .ok (some (.node l [])) := by
  have hread : readFrom 1 (.reading []) (written (.node l [])) = .ok (.finished (.node l [])) := by
    rw [written, writeOnto, readFrom_label 1 _ hl fun _ hc => absurd hc (by simp),
      if_neg (by simpa using hne)]
    show readFrom 1 (.finished (.node (String.ofList l.toList) [])) [] = _
    rw [String.ofList_toList]
    rfl
  unfold parse
  rw [show (tokens (written (.node l []))).foldlM Progress.step (.reading []) = _ from hread]
  have hempty : ¬ (l.isEmpty && ([] : List Constituent).isEmpty) = true := by simpa using hne
  exact congrArg Except.ok (if_neg hempty)

end Bracket

end Constituency
