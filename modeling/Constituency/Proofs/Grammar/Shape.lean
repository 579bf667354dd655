import Constituency.Grammar.Recognizer

/-!
# The shape of a parse

Whatever a text is, the parts of a parse are parses of rules that the body of its rule calls, and as
long as nothing is repeated they come in the order of the calls. Rules below a token leave no trace,
so that some of the calls may be missing (`Expr.Yields`). All parts of a parse have this shape too
(`Parse.Fits`).
-/

namespace Constituency.Grammar

variable {R : Type}

namespace Expr

/-- The rules that an expression calls, in the order in which they stand in it. -/
def calls : Expr R → List R
  | rule r => [r]
  | seq a b => a.calls ++ b.calls
  | alt a b => a.calls ++ b.calls
  | many e => e.calls
  | opt e => e.calls
  | _ => []

/-- Whether an expression repeats a part of it. -/
def repeats : Expr R → Bool
  | seq a b => a.repeats || b.repeats
  | alt a b => a.repeats || b.repeats
  | many _ => true
  | opt e => e.repeats
  | _ => false

/-- The rules of what an expression can leave in a parse. -/
structure Yields (e : Expr R) (rs : List R) : Prop where
  mem : ∀ r ∈ rs, r ∈ e.calls
  ordered : e.repeats = false → rs.Sublist e.calls

variable {a b : Expr R} {rs ss : List R}

theorem yields_nil (e : Expr R) : e.Yields [] :=
  ⟨fun _ hr => absurd hr (by simp), fun _ => List.nil_sublist _⟩

theorem yields_rule (r : R) : (rule r).Yields [r] := ⟨fun _ hr => hr, fun _ => .refl _⟩

theorem Yields.seq (ha : a.Yields rs) (hb : b.Yields ss) : (seq a b).Yields (rs ++ ss) := by
  refine ⟨fun r hr => ?_, fun hrepeats => ?_⟩
  · exact List.mem_append.mpr ((List.mem_append.mp hr).imp (ha.mem r) (hb.mem r))
  · obtain ⟨hla, hlb⟩ := Bool.or_eq_false_iff.mp hrepeats
    exact (ha.ordered hla).append (hb.ordered hlb)

theorem Yields.altLeft (ha : a.Yields rs) : (alt a b).Yields rs :=
  ⟨fun r hr => List.mem_append_left _ (ha.mem r hr), fun hrepeats =>
    (ha.ordered (Bool.or_eq_false_iff.mp hrepeats).1).trans (List.sublist_append_left ..)⟩

theorem Yields.altRight (hb : b.Yields rs) : (alt a b).Yields rs :=
  ⟨fun r hr => List.mem_append_right _ (hb.mem r hr), fun hrepeats =>
    (hb.ordered (Bool.or_eq_false_iff.mp hrepeats).2).trans (List.sublist_append_right ..)⟩

theorem Yields.opt (ha : a.Yields rs) : (opt a).Yields rs := ⟨ha.mem, ha.ordered⟩

theorem Yields.once (ha : a.Yields rs) : (many a).Yields rs :=
  ⟨ha.mem, fun hrepeats => absurd hrepeats (by simp [repeats])⟩

theorem Yields.again (ha : (many a).Yields rs) (hb : a.Yields ss) : (many a).Yields (rs ++ ss) :=
  ⟨fun r hr => (List.mem_append.mp hr).elim (ha.mem r) (hb.mem r),
    fun hrepeats => absurd hrepeats (by simp [repeats])⟩

end Expr

/-- Every part of a parse is one that the rule calls, and has this shape too. -/
inductive Parse.Fits (g : Grammar R) : Parse R → Prop where
  | node {r : R} {i : Nat} {cs : List Char} {ps : List (Parse R)} :
    (g.body r).Yields (ps.map Parse.rule) → (∀ p ∈ ps, Fits g p) → Fits g (.node r i cs ps)

/-- What an expression may leave behind. -/
structure Leaves (g : Grammar R) (e : Expr R) (ps : List (Parse R)) : Prop where
  yields : e.Yields (ps.map Parse.rule)
  fits : ∀ p ∈ ps, p.Fits g

namespace Leaves

variable {g : Grammar R} {a b : Expr R} {ps qs : List (Parse R)}

theorem nil (g : Grammar R) (e : Expr R) : Leaves g e [] :=
  ⟨e.yields_nil, fun _ hp => absurd hp (by simp)⟩

/-- A call inside a token leaves no trace of the rule, any other leaves its parse. -/
theorem called {r : R} (h : Leaves g (g.body r) ps) (isToken : Bool) (i : Nat) (cs : List Char) :
    Leaves g (.rule r) (if isToken = true then [] else [.node r i cs ps]) := by
  cases isToken with
  | true => exact .nil g _
  | false =>
    refine ⟨Expr.yields_rule r, fun p hp => ?_⟩
    rw [List.mem_singleton.mp hp]
    exact .node h.yields h.fits

/-- Two parts, one after the other. -/
theorem both {e : Expr R} (hps : Leaves g a ps) (hqs : Leaves g b qs)
    (h : e.Yields (ps.map Parse.rule ++ qs.map Parse.rule)) : Leaves g e (ps ++ qs) :=
  ⟨by rwa [List.map_append], fun p hp => (List.mem_append.mp hp).elim (hps.fits p) (hqs.fits p)⟩

theorem repeatStep {step : Cursor → Attempts R → Outcome R} {e : Expr R}
    (hstep : ∀ c x c' qs, (step c x).2 = some (c', qs) → Leaves g e qs) :
    ∀ (n : Nat) (c : Cursor) (x : Attempts R) (found : List (Parse R)) (c' : Cursor)
      (ps : List (Parse R)), Leaves g (.many e) found →
      (Grammar.repeatStep step n c x found).2 = some (c', ps) → Leaves g (.many e) ps
  | 0, c, x, found, c', ps, hfound, h => by
    obtain ⟨_, rfl⟩ := Prod.mk.inj (Option.some.inj h)
    exact hfound
  | n + 1, c, x, found, c', ps, hfound, h => by
    rw [Grammar.repeatStep] at h
    rcases hone : step c x with ⟨x', _ | ⟨c₁, parsed⟩⟩
    · rw [hone] at h
      obtain ⟨_, rfl⟩ := Prod.mk.inj (Option.some.inj h)
      exact hfound
    · rw [hone] at h
      have hparsed := hstep c x c₁ parsed (congrArg Prod.snd hone)
      exact repeatStep hstep n c₁ x' _ c' ps
        (hfound.both hparsed (hfound.yields.again hparsed.yields)) h

end Leaves

/-- **Running an expression leaves parses of the rules that it calls**, in order. -/
theorem run_leaves (g : Grammar R) (fuel : Nat) (setting : Setting) (e : Expr R) (c : Cursor)
    (x : Attempts R) {c' : Cursor} {ps : List (Parse R)}
    (h : (run g fuel setting e c x).2 = some (c', ps)) : Leaves g e ps := by
  induction fuel generalizing setting e c x c' ps with
  | zero => exact absurd h (by simp [run])
  | succ fuel ih =>
    unfold run at h
    dsimp only at h
    cases e with
    | text cs | char p =>
      obtain ⟨_, _, hnone⟩ := Option.map_eq_some_iff.mp h
      obtain ⟨_, rfl⟩ := Prod.mk.inj hnone
      exact .nil g _
    | textStart | textEnd =>
      dsimp only at h
      split at h
      · obtain ⟨_, rfl⟩ := Prod.mk.inj (Option.some.inj h)
        exact .nil g _
      · exact absurd h (by simp)
    | seq a b =>
      dsimp only at h
      rcases ha : run g fuel setting a c x with ⟨x₁, _ | ⟨c₁, first⟩⟩
      · rw [ha] at h
        exact absurd h (by simp)
      · rw [ha] at h
        dsimp only at h
        split at h
        · exact absurd h (by simp)
        · rename_i hb
          obtain ⟨_, rfl⟩ := Prod.mk.inj (Option.some.inj h)
          have hfirst := ih _ a _ _ (congrArg Prod.snd ha)
          have hsecond := ih _ b _ _ (congrArg Prod.snd hb)
          exact hfirst.both hsecond (hfirst.yields.seq hsecond.yields)
    | alt a b =>
      dsimp only at h
      rcases ha : run g fuel setting a c x with ⟨x₁, _ | ⟨c₁, first⟩⟩
      · rw [ha] at h
        have hb := ih setting b c x₁ h
        exact ⟨hb.yields.altRight, hb.fits⟩
      · rw [ha] at h
        have hfirst := ih setting a c x ((congrArg Prod.snd ha).trans h)
        exact ⟨hfirst.yields.altLeft, hfirst.fits⟩
    | opt a =>
      dsimp only at h
      rcases ha : run g fuel setting a c x with ⟨x₁, _ | ⟨c₁, first⟩⟩
      · rw [ha] at h
        obtain ⟨_, rfl⟩ := Prod.mk.inj (Option.some.inj h)
        exact .nil g _
      · rw [ha] at h
        have hfirst := ih setting a c x ((congrArg Prod.snd ha).trans h)
        exact ⟨hfirst.yields.opt, hfirst.fits⟩
    | many a =>
      dsimp only at h
      rcases ha : run g fuel setting a c x with ⟨x₁, _ | ⟨c₁, first⟩⟩
      · rw [ha] at h
        obtain ⟨_, rfl⟩ := Prod.mk.inj (Option.some.inj h)
        exact .nil g _
      · rw [ha] at h
        have hfirst := ih _ a _ _ (congrArg Prod.snd ha)
        exact Leaves.repeatStep (fun c₂ x₂ c₃ qs hqs => ih _ a _ _ hqs) _ _ _ _ _ _
          ⟨hfirst.yields.once, hfirst.fits⟩ h
    | absent a =>
      dsimp only at h
      split at h
      · obtain ⟨_, rfl⟩ := Prod.mk.inj (Option.some.inj h)
        exact .nil g _
      · exact absurd h (by simp)
    | rule r =>
      dsimp only at h
      split at h
      · exact absurd h (by simp)
      · rename_i hbody
        obtain ⟨_, rfl⟩ := Prod.mk.inj (Option.some.inj h)
        exact (ih _ _ _ _ (congrArg Prod.snd hbody)).called _ _ _

/-- **A parse of a whole text has this shape.** -/
theorem parse_fits [BEq R] {g : Grammar R} {r : R} {cs : List Char} {p : Parse R}
    (h : g.parse r cs = .ok p) : p.rule = r ∧ p.Fits g := by
  unfold parse at h
  dsimp only at h
  split at h
  · rename_i q hrun
    obtain rfl : q = p := Except.ok.inj h
    have hleaves := run_leaves g _ _ _ _ _ (congrArg Prod.snd hrun)
    have hrule := hleaves.yields.mem q.rule (List.mem_singleton_self _)
    exact ⟨List.mem_singleton.mp hrule, hleaves.fits q (List.mem_singleton_self q)⟩
  · exact absurd h (by simp)

end Constituency.Grammar
