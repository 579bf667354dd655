import Constituency.Proofs.Bracket.Tokens
import Constituency.Proofs.Bracket.RoundTrip

/-!
# The grammar of bracketed notation

A text is read by a loop over its tokens with a stack of open nodes. Which texts it accepts is said
here without a stack: the tokens have to be one item (`Denotes`), where an item is an atom, or an
opening parenthesis, a label or none, any number of items and a closing parenthesis.

Reading an item hands its constituent to the innermost open node, whatever the stack is
(`Denotes.read`). In the other direction, the stack says what the tokens so far are: a row of items
that lack their ends, one for each open node (`Reached`). So the tokens that were taken can always
be continued to an item, by closing what is open, and a token that is refused is the first one that
cannot belong to any item (`refused_of_error`).
-/

namespace Constituency.Bracket

/-- The constituent that an item denotes. An atom directly behind an opening parenthesis is the
label: if there is no label, then no atom comes first. -/
inductive Denotes : List Token → Constituent → Prop where
  | atom {a : List Char} : a ≠ [] → Denotes [.atom a] (.node (String.ofList a) [])
  | bracket {label : Option (List Char)} {parts : List (List Token × Constituent)} :
    label ≠ some [] → (∀ p ∈ parts, Denotes p.1 p.2) →
    (label = none → ∀ a, (parts.flatMap Prod.fst).head? ≠ some (.atom a)) →
    Denotes (.opening :: ((label.map Token.atom).toList ++ parts.flatMap Prod.fst ++ [.closing]))
      (.node (String.ofList (label.getD [])) (parts.map Prod.snd))

theorem Denotes.ne_nil {ts : List Token} {c : Constituent} (h : Denotes ts c) : ts ≠ [] := by
  cases h with
  | atom => exact List.cons_ne_nil _ _
  | bracket => exact List.cons_ne_nil _ _

/-- The first token of several items is that of the first of them. -/
theorem head?_items {p : List Token × Constituent} {parts : List (List Token × Constituent)}
    (hp : Denotes p.1 p.2) : ((p :: parts).flatMap Prod.fst).head? = p.1.head? := by
  rw [List.flatMap_cons, List.head?_append_of_ne_nil _ hp.ne_nil]

/-- Only an item of just parentheses denotes a leaf without a label. -/
theorem Denotes.isEmpty_iff {ts : List Token} {l : Label} {cs : List Constituent}
    (h : Denotes ts (.node l cs)) :
    (l.isEmpty && cs.isEmpty) = true ↔ ts = [.opening, .closing] := by
  cases h with
  | atom hne => simp [hne]
  | @bracket label parts hlabel hparts _ =>
    cases label with
    | some a =>
      have hne : a ≠ [] := fun ha => hlabel (congrArg some ha)
      simp [hne]
    | none =>
      cases parts with
      | nil => simp
      | cons p parts =>
        have hp := (hparts p (List.mem_cons_self ..)).ne_nil
        refine iff_of_false (by simp) fun hts => hp ?_
        have hlength := congrArg List.length hts
        simp only [List.flatMap_cons, List.length_cons, List.length_append, List.length_nil,
          Option.map_none, Option.toList_none] at hlength
        exact List.length_eq_zero_iff.mp (by omega)

/-! ## Reading an item -/

section run

variable {p q : Progress} {t : Located} {us vs : List Located}

theorem run_cons (h : p.step t = .ok q) :
    (t :: vs).foldlM Progress.step p = vs.foldlM Progress.step q := by
  rw [List.foldlM_cons, h]
  rfl

theorem run_append (h : us.foldlM Progress.step p = .ok q) :
    (us ++ vs).foldlM Progress.step p = vs.foldlM Progress.step q := by
  rw [List.foldlM_append, h]
  rfl

end run

/-- Reading the tokens from any stack hands the constituent to its innermost open node. A node
whose opening parenthesis was just read would take an atom for its label. -/
def Handed (ts : List Token) (c : Constituent) : Prop :=
  ∀ (us : List Located) (frames : List Frame), us.map Located.token = ts →
    (∀ f, frames.head? = some f → f.isFresh = true → ∀ a, ts.head? ≠ some (.atom a)) →
      us.foldlM Progress.step (.reading frames) = .ok (.deliver c frames)

/-- Several items become the children of the innermost open node. -/
theorem read_parts {parts : List (List Token × Constituent)}
    (hitems : ∀ p ∈ parts, Denotes p.1 p.2) (hhanded : ∀ p ∈ parts, Handed p.1 p.2)
    (us : List Located) (f : Frame) (fs : List Frame)
    (hus : us.map Located.token = parts.flatMap Prod.fst)
    (hfirst : f.isFresh = true → ∀ a, (parts.flatMap Prod.fst).head? ≠ some (.atom a)) :
    us.foldlM Progress.step (.reading (f :: fs)) =
      .ok (.reading (⟨f.label, (parts.map Prod.snd).reverse ++ f.children⟩ :: fs)) := by
  induction parts generalizing us f with
  | nil =>
    obtain rfl := List.map_eq_nil_iff.mp hus
    rfl
  | cons p parts ih =>
    have hp := hitems p (List.mem_cons_self ..)
    rw [head?_items hp] at hfirst
    obtain ⟨us, vs, rfl, hus, hvs⟩ := List.map_eq_append_iff.mp hus
    have hread := hhanded p (List.mem_cons_self ..) us (f :: fs) hus fun g hg => by
      obtain rfl := Option.some.inj hg
      exact hfirst
    have hrest := ih (fun q hq => hitems q (List.mem_cons_of_mem p hq))
      (fun q hq => hhanded q (List.mem_cons_of_mem p hq)) vs (f.add p.2) hvs
      fun hfresh => absurd hfresh (by rw [f.isFresh_add]; exact Bool.false_ne_true)
    rw [run_append hread, Progress.deliver, hrest]
    rw [List.map_cons, List.reverse_cons, List.append_assoc]
    rfl

/-- **Reading an item hands over its constituent.** -/
theorem Denotes.read {ts : List Token} {c : Constituent} (h : Denotes ts c) : Handed ts c := by
  induction h with
  | @atom a hne =>
    intro us frames hus hfirst
    obtain ⟨⟨line, token⟩, rfl, rfl⟩ := List.map_eq_singleton_iff.mp hus
    cases frames with
    | nil => rfl
    | cons f fs =>
      have hfresh : ¬ f.isFresh = true := fun hf => hfirst f rfl hf a rfl
      have hstep : Progress.step (.reading (f :: fs)) ⟨line, .atom a⟩ = _ := if_neg hfresh
      rw [run_cons hstep]
      rfl
  | @bracket label parts hlabel hitems hfirst ih =>
    intro us frames hus _
    obtain ⟨⟨opened, _⟩, inner, rfl, rfl, hinner⟩ := List.map_eq_cons_iff.mp hus
    obtain ⟨front, ws, rfl, hfront, hws⟩ := List.map_eq_append_iff.mp hinner
    obtain ⟨name, vs, rfl, hname, hvs⟩ := List.map_eq_append_iff.mp hfront
    obtain ⟨⟨closed, _⟩, rfl, rfl⟩ := List.map_eq_singleton_iff.mp hws
    -- the label, if there is one, is taken by the node that was just opened
    have hnamed : name.foldlM Progress.step (.reading (.fresh :: frames)) =
        .ok (.reading (⟨String.ofList (label.getD []), []⟩ :: frames)) := by
      cases label with
      | none =>
        obtain rfl := List.map_eq_nil_iff.mp hname
        rfl
      | some a =>
        obtain ⟨⟨line, _⟩, rfl, rfl⟩ := List.map_eq_singleton_iff.mp hname
        rfl
    have hread := read_parts hitems ih vs ⟨String.ofList (label.getD []), []⟩ frames hvs
      fun hfresh => hfirst (by
        cases label with
        | none => rfl
        | some a => exact absurd (by simpa [Frame.isFresh] using hfresh) hlabel)
    have hopening : Progress.step (.reading frames) ⟨opened, .opening⟩ =
        .ok (.reading (.fresh :: frames)) := rfl
    have hclosing : ∀ f, Progress.step (.reading (f :: frames)) ⟨closed, .closing⟩ =
        .ok (.deliver f.close frames) := fun _ => rfl
    rw [run_cons hopening, List.append_assoc, run_append hnamed, run_append hread,
      run_cons (hclosing _)]
    rw [Frame.close, List.append_nil, List.reverse_reverse]
    rfl

/-! ## What the stack says about the tokens -/

/-- The tokens of a node that is still open: an item that lacks its end. -/
inductive Opened : List Token → Frame → Prop where
  | intro {label : Option (List Char)} {parts : List (List Token × Constituent)} :
    label ≠ some [] → (∀ p ∈ parts, Denotes p.1 p.2) →
    (label = none → ∀ a, (parts.flatMap Prod.fst).head? ≠ some (.atom a)) →
    Opened (.opening :: ((label.map Token.atom).toList ++ parts.flatMap Prod.fst))
      ⟨String.ofList (label.getD []), (parts.map Prod.snd).reverse⟩

namespace Opened

variable {ts us : List Token} {f : Frame} {c : Constituent}

theorem fresh : Opened [.opening] .fresh :=
  @Opened.intro none [] (by simp) (by simp) (by simp)

theorem head? (h : Opened ts f) : ts.head? = some .opening := by
  cases h
  rfl

/-- A closing parenthesis makes it an item. -/
theorem close (h : Opened ts f) : Denotes (ts ++ [.closing]) f.close := by
  cases h with
  | intro hlabel hparts hfirst =>
    rw [List.cons_append, Frame.close, List.reverse_reverse]
    exact .bracket hlabel hparts hfirst

/-- An atom directly behind the opening parenthesis is the label. -/
theorem name (h : Opened ts f) (hfresh : f.isFresh = true) {a : List Char} (ha : a ≠ []) :
    Opened (ts ++ [.atom a]) { f with label := String.ofList a } := by
  cases h with
  | @intro label parts hlabel _ _ =>
    simp only [Frame.isFresh, Bool.and_eq_true, List.isEmpty_iff, List.reverse_eq_nil_iff,
      List.map_eq_nil_iff] at hfresh
    obtain ⟨hnone, rfl⟩ := hfresh
    cases label with
    | some b => exact absurd (by simpa using hnone) hlabel
    | none => exact @Opened.intro (some a) [] (by simpa using ha) (by simp) (by simp)

/-- An item is one more child, unless it would be the label. -/
theorem add (h : Opened ts f) (hitem : Denotes us c)
    (hfirst : f.isFresh = true → ∀ a, us.head? ≠ some (.atom a)) :
    Opened (ts ++ us) (f.add c) := by
  cases h with
  | @intro label parts hlabel hparts hnone =>
    have hall : ∀ p ∈ parts ++ [(us, c)], Denotes p.1 p.2 := by
      intro p hp
      rcases List.mem_append.mp hp with hp | hp
      · exact hparts p hp
      · rw [List.mem_singleton.mp hp]
        exact hitem
    have hadded := @Opened.intro label (parts ++ [(us, c)]) hlabel hall (by
      rintro rfl
      cases parts with
      | nil => exact (head?_items (p := (us, c)) hitem) ▸ hfirst rfl
      | cons p parts =>
        have hp := hparts p (List.mem_cons_self ..)
        rw [List.cons_append, head?_items hp, ← @head?_items p parts hp]
        exact hnone rfl)
    rw [List.flatMap_append, List.flatMap_singleton, ← List.append_assoc, List.map_append,
      List.reverse_append] at hadded
    exact hadded

end Opened

/-- What some tokens lead to: for every open node an item that lacks its end, or an item. -/
inductive Reached : List Token → Progress → Prop where
  | start : Reached [] (.reading [])
  | opened {ts us : List Token} {f : Frame} {fs : List Frame} : Reached ts (.reading fs) →
    Opened us f → Reached (ts ++ us) (.reading (f :: fs))
  | finished {ts : List Token} {c : Constituent} : Denotes ts c → Reached ts (.finished c)

namespace Reached

variable {ts us : List Token} {p q : Progress} {c : Constituent}

theorem denotes (h : Reached ts (.finished c)) : Denotes ts c := by
  cases h with
  | finished hitem => exact hitem

/-- An item is taken up by the innermost open node, unless it would be its label. -/
theorem deliver {frames : List Frame} (h : Reached ts (.reading frames)) (hitem : Denotes us c)
    (hfirst : ∀ f, frames.head? = some f → f.isFresh = true → ∀ a, us.head? ≠ some (.atom a)) :
    Reached (ts ++ us) (.deliver c frames) := by
  cases h with
  | start => exact .finished hitem
  | opened hbelow hopened =>
    rw [List.append_assoc]
    exact .opened hbelow (hopened.add hitem (hfirst _ rfl))

/-- A closing parenthesis for the innermost open node. -/
theorem close {f : Frame} {fs : List Frame} (h : Reached ts (.reading (f :: fs))) :
    Reached (ts ++ [.closing]) (.deliver f.close fs) := by
  cases h with
  | @opened ts us _ _ hbelow hopened =>
    have hhead : (us ++ [Token.closing]).head? = some .opening := by
      rw [List.head?_append, hopened.head?]
      rfl
    rw [List.append_assoc]
    exact hbelow.deliver hopened.close fun _ _ _ a ha => absurd (hhead.symm.trans ha) (by simp)

/-- **One more token.** -/
theorem step (h : Reached ts p) {t : Located} (hatom : ∀ a, t.token = .atom a → a ≠ [])
    (hstep : p.step t = .ok q) : Reached (ts ++ [t.token]) q := by
  obtain ⟨line, token⟩ := t
  cases p with
  | finished c => exact absurd hstep (by simp [Progress.step])
  | reading frames =>
    cases token with
    | opening =>
      obtain rfl := Except.ok.inj hstep
      exact .opened h .fresh
    | closing =>
      cases frames with
      | nil => exact absurd hstep (by simp [Progress.step])
      | cons f fs =>
        obtain rfl := Except.ok.inj hstep
        exact h.close
    | atom a =>
      have ha := hatom a rfl
      cases frames with
      | nil =>
        obtain rfl := Except.ok.inj hstep
        exact h.deliver (.atom ha) fun f hf => absurd hf (by simp)
      | cons f fs =>
        rw [step_atom] at hstep
        split at hstep
        · rename_i hfresh
          obtain rfl := Except.ok.inj hstep
          cases h with
          | opened hbelow hopened =>
            rw [List.append_assoc]
            exact .opened hbelow (hopened.name hfresh ha)
        · rename_i hfresh
          obtain rfl := Except.ok.inj hstep
          refine h.deliver (.atom ha) fun g hg => ?_
          obtain rfl := Option.some.inj hg
          exact fun hf => absurd hf hfresh

/-- **All tokens that were taken.** -/
theorem run {vs : List Located} (h : Reached ts p)
    (hatoms : ∀ t ∈ vs, ∀ a, t.token = .atom a → a ≠ [])
    (hrun : vs.foldlM Progress.step p = .ok q) : Reached (ts ++ vs.map Located.token) q := by
  induction vs generalizing ts p with
  | nil =>
    obtain rfl := Except.ok.inj hrun
    rwa [List.map_nil, List.append_nil]
  | cons v vs ih =>
    rw [List.foldlM_cons] at hrun
    cases hstep : p.step v with
    | error e =>
      rw [hstep] at hrun
      exact absurd hrun (by simp [bind, Except.bind])
    | ok r =>
      rw [hstep] at hrun
      have hrest := ih (h.step (hatoms v (List.mem_cons_self ..)) hstep)
        (fun t ht => hatoms t (List.mem_cons_of_mem v ht)) hrun
      rwa [List.append_assoc] at hrest

end Reached

/-! ## Which token is refused -/

/-- Some tokens can be continued to an item. -/
def Viable (ts : List Token) : Prop := ∃ us c, Denotes (ts ++ us) c

theorem Denotes.viable {ts : List Token} {c : Constituent} (h : Denotes ts c) : Viable ts :=
  ⟨[], c, by rwa [List.append_nil]⟩

theorem Viable.of_append {ts us : List Token} (h : Viable (ts ++ us)) : Viable ts := by
  obtain ⟨vs, c, hitem⟩ := h
  exact ⟨us ++ vs, c, by rwa [List.append_assoc] at hitem⟩

/-- **What was taken can be continued**: all that is open can be closed. -/
theorem Reached.viable {ts : List Token} {p : Progress} (h : Reached ts p) : Viable ts := by
  cases p with
  | finished c =>
    cases h with
    | finished hitem => exact hitem.viable
  | reading frames =>
    -- the induction is on the nodes that are open below the innermost one
    cases frames with
    | nil =>
      cases h
      exact ⟨[.atom ['x']], _, .atom (by simp)⟩
    | cons f fs =>
      induction fs generalizing ts f with
      | nil => exact h.close.denotes.viable.of_append
      | cons g gs ih => exact (ih _ h.close).of_append

/-- A token that is refused belongs to no item that begins with the tokens before. -/
theorem not_viable_of_step {vs : List Located} {t : Located} {q : Progress} {e : ParseError}
    (hrun : vs.foldlM Progress.step (.reading []) = .ok q) (hstep : q.step t = .error e) :
    ¬ Viable ((vs ++ [t]).map Located.token) := by
  rintro ⟨us, c, hitem⟩
  have hread := hitem.read (vs ++ t :: us.map (⟨0, ·⟩)) []
    (by simp [Function.comp_def]) fun f hf => absurd hf (by simp)
  rw [run_append hrun, List.foldlM_cons, hstep] at hread
  exact absurd hread (by simp [bind, Except.bind])

/-- A token is refused on its own line. -/
theorem line_of_step {p : Progress} {t : Located} {e : ParseError} (h : p.step t = .error e) :
    e.line = t.line := by
  obtain ⟨line, token⟩ := t
  cases p with
  | finished c =>
    obtain rfl := Except.error.inj h
    rfl
  | reading frames =>
    cases token with
    | opening => exact absurd h (by simp [Progress.step])
    | closing =>
      cases frames with
      | nil =>
        obtain rfl := Except.error.inj h
        rfl
      | cons f fs => exact absurd h (by simp [Progress.step])
    | atom a =>
      cases frames with
      | nil => exact absurd h (by simp [Progress.step])
      | cons f fs =>
        rw [step_atom] at h
        split at h <;> exact absurd h (by simp)

/-- The token at which reading stops. -/
theorem refused_of_run {p : Progress} {e : ParseError} : ∀ {vs : List Located},
    vs.foldlM Progress.step p = .error e → ∃ before t after q, vs = before ++ t :: after ∧
      before.foldlM Progress.step p = .ok q ∧ q.step t = .error e
  | [], h => absurd h (by simp [pure, Except.pure])
  | v :: vs, h => by
    rw [List.foldlM_cons] at h
    cases hstep : p.step v with
    | error f =>
      rw [hstep] at h
      obtain rfl := Except.error.inj h
      exact ⟨[], v, vs, p, rfl, rfl, hstep⟩
    | ok r =>
      rw [hstep] at h
      obtain ⟨before, t, after, q, rfl, hrun, ht⟩ := refused_of_run h
      refine ⟨v :: before, t, after, q, rfl, ?_, ht⟩
      rw [List.foldlM_cons, hstep]
      exact hrun

/-! ## Texts -/

/-- The kinds of the tokens of a text, without their lines. -/
def kinds (cs : List Char) : List Token := (tokens cs).map Located.token

theorem tokens_ne_nil (cs : List Char) : ∀ t ∈ tokens cs, ∀ a, t.token = .atom a → a ≠ [] :=
  (tokenized_iff.mpr rfl).atom_ne_nil

/-- Reading ends with a constituent exactly if the tokens are an item, and then with the one that
the item denotes. -/
theorem run_eq_finished_iff {cs : List Char} {c : Constituent} :
    (tokens cs).foldlM Progress.step (.reading []) = .ok (.finished c) ↔ Denotes (kinds cs) c := by
  constructor
  · intro hrun
    have hreached := Reached.start.run (tokens_ne_nil cs) hrun
    exact hreached.denotes
  · intro hitem
    exact hitem.read (tokens cs) [] rfl fun f hf => absurd hf (by simp)

/-- **Which texts are accepted**, and what is read: the constituent that the tokens denote, or no
tree if they are just parentheses. -/
theorem parse_iff {cs : List Char} {c : Option Constituent} :
    parse cs = .ok c ↔ ∃ d, Denotes (kinds cs) d ∧
      c = if kinds cs = [.opening, .closing] then none else some d := by
  -- what becomes of a finished constituent
  have hresult : ∀ d, Denotes (kinds cs) d → (Progress.finished d).result (lastLine cs) =
      .ok (if kinds cs = [.opening, .closing] then none else some d) := by
    rintro ⟨l, ds⟩ hitem
    rw [Progress.result]
    simp only [hitem.isEmpty_iff]
  constructor
  · intro h
    rw [parse] at h
    cases hrun : (tokens cs).foldlM Progress.step (.reading []) with
    | error e =>
      rw [hrun] at h
      exact absurd h (by simp [bind, Except.bind])
    | ok p =>
      rw [hrun] at h
      cases p with
      | reading fs => cases fs <;> exact absurd h (by simp [bind, Except.bind, Progress.result])
      | finished d =>
        have hitem := run_eq_finished_iff.mp hrun
        have h := (hresult d hitem).symm.trans h
        exact ⟨d, hitem, (Except.ok.inj h).symm⟩
  · rintro ⟨d, hitem, rfl⟩
    rw [parse, run_eq_finished_iff.mpr hitem]
    exact hresult d hitem

/-- **Where a text is refused**: at the first token that cannot continue an item, or at the end of
the text if its tokens are the beginning of an item but not an item. -/
theorem refused_of_error {cs : List Char} {e : ParseError} (h : parse cs = .error e) :
    (∃ before t after, tokens cs = before ++ t :: after ∧ Viable (before.map Located.token) ∧
        ¬ Viable ((before ++ [t]).map Located.token) ∧ e.line = t.line) ∨
      (Viable (kinds cs) ∧ (¬ ∃ c, Denotes (kinds cs) c) ∧ e.line = lastLine cs) := by
  have hno : ¬ ∃ c, Denotes (kinds cs) c := by
    rintro ⟨c, hitem⟩
    rw [parse_iff.mpr ⟨c, hitem, rfl⟩] at h
    exact absurd h (by simp)
  rw [parse] at h
  cases hrun : (tokens cs).foldlM Progress.step (.reading []) with
  | error f =>
    rw [hrun] at h
    obtain rfl := Except.error.inj h
    obtain ⟨before, t, after, q, hsplit, hbefore, hstep⟩ := refused_of_run hrun
    have hatoms : ∀ u ∈ before, ∀ a, u.token = .atom a → a ≠ [] := fun u hu =>
      tokens_ne_nil cs u (by rw [hsplit]; exact List.mem_append_left _ hu)
    exact .inl ⟨before, t, after, hsplit, (Reached.start.run hatoms hbefore).viable,
      not_viable_of_step hbefore hstep, line_of_step hstep⟩
  | ok p =>
    rw [hrun] at h
    have hviable : Viable (kinds cs) := (Reached.start.run (tokens_ne_nil cs) hrun).viable
    refine .inr ⟨hviable, hno, ?_⟩
    cases p with
    | reading fs =>
      cases fs with
      | nil | cons =>
        obtain rfl := Except.error.inj h
        rfl
    | finished d => exact absurd ⟨d, run_eq_finished_iff.mp hrun⟩ hno

end Constituency.Bracket
