import Constituency.Proofs.Grammar.Bounds
import Constituency.Proofs.Grammar.Steady
import Constituency.Surgery.Grammar

/-!
# The tokens of scripts

The grammar of scripts stays within bounds, so what its recognizer comes to is what it reads
(`ScriptRule.bounds_hold`). Most of its rules are not affected by a further line
(`ScriptRule.steady`). Which operation a text begins with is decided by its first word, since no
keyword runs into the word behind it.
-/

namespace Constituency

open Grammar

namespace ScriptRule

/-- What is claimed of the rules of scripts, to bound how deep calls nest. -/
def bounds : Bounds ScriptRule where
  takes
    | endOfText | script | regexBody | replacement | quotedBody => false
    | _ => true
  depth
    | operation => 30
    | delete | prune | excise | relabel | insert | move | replace | adjoin | createSubtree | coindex
    | ifExists | operand | position | newLabel => 16
    | _ => 8
  inner r := r != script
  limit := 60

theorem bounds_hold : bounds.Hold scriptGrammar where
  takes r := by cases r <;> decide
  depth r := by cases r <;> decide
  bounded r := by cases r <;> decide
  space := by decide
  limit := by decide

/-- The rules that a further line does not affect. -/
def isSteady : ScriptRule → Bool
  | delete | prune | excise | move | coindex | deleteWord | pruneWord | exciseWord | relabelWord
  | insertWord | moveWord | replaceWord | adjoinWord | createSubtreeWord | coindexWord | ifWord
  | notWord | existsWord | position | positionOp | replacement | bareLabel | name => true
  | _ => false

theorem steady : Steady scriptGrammar '\n' isSteady where
  body r k := by cases r <;> cases k <;> decide
  space := by decide

variable {n : Nat} {k : Kind} {s z : List Char}

/-! ## Keywords -/

/-- The run of name characters at the front of a text. -/
def firstWord (cs : List Char) : List Char := cs.takeWhile Text.isNameChar

theorem firstWord_append (cs : List Char) (hz : z.head? = some '\n') :
    firstWord (cs ++ z) = firstWord cs := by
  obtain ⟨w, rfl⟩ := List.head?_eq_some_iff.mp hz
  induction cs with
  | nil => rfl
  | cons c cs ih =>
    rw [List.cons_append, firstWord, firstWord, List.takeWhile_cons, List.takeWhile_cons]
    split
    · rw [firstWord, firstWord] at ih
      rw [ih]
    · rfl

theorem firstWord_eq {w cs : List Char} (hw : ∀ c ∈ w, Text.isNameChar c = true)
    (hcs : ∀ c ∈ cs.head?, Text.isNameChar c = false) : firstWord (w ++ cs) = w := by
  induction w with
  | nil =>
    cases cs with
    | nil => rfl
    | cons c cs => exact List.takeWhile_cons_of_neg (by simp [hcs c rfl])
  | cons c w ih =>
    have hrest := ih fun x hx => hw x (List.mem_cons_of_mem c hx)
    rw [List.cons_append, firstWord, List.takeWhile_cons_of_pos (hw c (List.mem_cons_self ..))]
    exact congrArg (c :: ·) hrest

variable {ws : List String} {cs cs' : List Char} {ps : List (Parse ScriptRule)}

/-- A word is there only if it is the first word of the text. -/
theorem firstWord_of_reads (hws : ∀ w ∈ ws, ∀ c ∈ w.toList, Text.isNameChar c = true)
    (h : Reads scriptGrammar n .token (word ws) cs (some (cs', ps))) :
    ∃ w ∈ ws, firstWord cs = w.toList := by
  cases h with
  | @seq _ _ _ _ cs₁ cs₂ _ _ _ _ hword hgap hend =>
    obtain ⟨-, w, hw, rfl⟩ := mem_of_reads_oneOf hword
    obtain ⟨rfl, -⟩ := Prod.mk.inj (Option.some.inj ((reads_gap (by decide) _).unique hgap))
    refine ⟨w, hw, firstWord_eq (hws w hw) ?_⟩
    cases hend with
    | absent hno =>
      cases hno with
      | noChar hno => exact hno

theorem reads_noWord (hws : ∀ w ∈ ws, ∀ c ∈ w.toList, Text.isNameChar c = true)
    (h : ∀ w ∈ ws, firstWord cs ≠ w.toList) :
    Reads scriptGrammar n .token (word ws) cs none := by
  have ho := reads_oneOf (g := scriptGrammar) (n := n) (k := .token) ws cs
  rcases hfirst : ws.find? (Text.begins cs) with _ | first
  · rw [hfirst] at ho
    exact .noFirst ho
  · rw [hfirst, Option.map_some] at ho
    obtain ⟨-, w, hw, hcs⟩ := mem_of_reads_oneOf ho
    generalize cs.drop first.toList.length = rest at ho hcs
    subst hcs
    -- the word is there, so the text must go on with a name character
    have hnot : ¬ ∀ c ∈ rest.head?, Text.isNameChar c = false :=
      fun hend => h w hw (firstWord_eq (hws w hw) hend)
    cases rest with
    | nil => exact absurd (fun c hc => absurd hc (by simp)) hnot
    | cons c rest =>
      have hc : Text.isNameChar c = true := by simpa using hnot
      exact .noSecond ho (reads_gap (by decide) _) (.notAbsent (.char hc))

/-- The words with which an operation begins. -/
def keywords : ScriptRule → List String
  | delete => ["delete"]
  | prune => ["prune"]
  | excise => ["excise"]
  | relabel => ["relabel"]
  | insert => ["insert"]
  | move => ["move"]
  | replace => ["replace"]
  | adjoin => ["adjoinH", "adjoinF", "adjoin"]
  | createSubtree => ["createSubtree"]
  | coindex => ["coindex"]
  | ifExists => ["if"]
  | _ => []

/-- The kinds of operations, in the order in which they are tried. -/
def operationRules : List ScriptRule :=
  [ifExists, delete, prune, excise, relabel, insert, move, replace, adjoin, createSubtree, coindex]

/-- An operation begins with one of its words. -/
theorem front_of_operation {r : ScriptRule} (hr : r ∈ operationRules) :
    ∃ w, (body r).front = .rule w ∧ kind w = .token ∧ body w = word (keywords r) := by
  revert hr
  cases r with
  | ifExists => exact fun _ => ⟨ifWord, rfl, rfl, rfl⟩
  | delete => exact fun _ => ⟨deleteWord, rfl, rfl, rfl⟩
  | prune => exact fun _ => ⟨pruneWord, rfl, rfl, rfl⟩
  | excise => exact fun _ => ⟨exciseWord, rfl, rfl, rfl⟩
  | relabel => exact fun _ => ⟨relabelWord, rfl, rfl, rfl⟩
  | insert => exact fun _ => ⟨insertWord, rfl, rfl, rfl⟩
  | move => exact fun _ => ⟨moveWord, rfl, rfl, rfl⟩
  | replace => exact fun _ => ⟨replaceWord, rfl, rfl, rfl⟩
  | adjoin => exact fun _ => ⟨adjoinWord, rfl, rfl, rfl⟩
  | createSubtree => exact fun _ => ⟨createSubtreeWord, rfl, rfl, rfl⟩
  | coindex => exact fun _ => ⟨coindexWord, rfl, rfl, rfl⟩
  | _ => exact fun hr => absurd hr (by decide)

theorem kind_of_operation {r : ScriptRule} (hr : r ∈ operationRules) : kind r = .spaced := by
  revert hr
  cases r <;> decide

theorem names_of_keywords {r : ScriptRule} :
    ∀ w ∈ keywords r, ∀ c ∈ w.toList, Text.isNameChar c = true := by
  have hall : ((keywords r).all fun w => w.toList.all Text.isNameChar) = true := by
    cases r <;> decide
  exact fun w hw => List.all_eq_true.mp (List.all_eq_true.mp hall w hw)

/-- No word begins operations of two kinds. -/
theorem eq_of_keyword : ∀ r ∈ operationRules, ∀ r' ∈ operationRules, ∀ w ∈ keywords r,
    w ∈ keywords r' → r = r' := by
  decide

theorem keyword_of_reads {r : ScriptRule} (hr : r ∈ operationRules)
    {x : List Char × List (Parse ScriptRule)}
    (h : Reads scriptGrammar n .spaced (.rule r) cs (some x)) :
    ∃ w ∈ keywords r, firstWord cs = w.toList := by
  obtain ⟨w, hfront, hkind, hbody⟩ := front_of_operation hr
  cases h with
  | rule h _ _ =>
    obtain ⟨y, hy⟩ := h.front
    rw [show (scriptGrammar.body r).front = .rule w from hfront] at hy
    cases hy with
    | rule hword _ _ =>
      rw [show scriptGrammar.kind w = .token from hkind,
        show scriptGrammar.body w = word (keywords r) from hbody] at hword
      exact firstWord_of_reads names_of_keywords hword

theorem reads_noKeyword {r : ScriptRule} (hr : r ∈ operationRules)
    (h : ∀ w ∈ keywords r, firstWord cs ≠ w.toList) :
    Reads scriptGrammar n .spaced (.rule r) cs none := by
  obtain ⟨w, hfront, hkind, hbody⟩ := front_of_operation hr
  refine .noRule (reads_of_noFront ?_)
  rw [show (scriptGrammar.body r).front = .rule w from hfront]
  refine .noRule ?_
  rw [show scriptGrammar.kind w = .token from hkind,
    show scriptGrammar.body w = word (keywords r) from hbody]
  exact reads_noWord names_of_keywords h

end ScriptRule

end Constituency
