import Constituency.Surgery.Application

/-!
# Applying scripts to all matches

A script is applied to one match after the other. When it has changed the structure of the tree, the
matches are enumerated anew; after a change of labels alone the enumeration goes on, and sees the
new labels. Since a script can make matches of its own pattern, the number of applications is
limited.
-/

namespace Constituency

/-- A pattern with the script for its matches. -/
structure Rule where
  pattern : Pattern
  script : Script

/-- What applying scripts to matches came to. -/
structure Report where
  /-- The number of matches that a script was applied to. -/
  applications : Nat
  diagnostics : List Diagnostic
  /-- Whether a match was left when the limit was reached. -/
  limitReached : Bool

namespace Report

/-- The report of having done nothing. -/
def nothing : Report := ⟨0, [], false⟩

/-- The report of two runs, one after the other. -/
def append (a b : Report) : Report :=
  ⟨a.applications + b.applications, a.diagnostics ++ b.diagnostics,
    a.limitReached || b.limitReached⟩

instance : Append Report := ⟨append⟩

end Report

namespace Rule

/-- The limit where none is given. -/
def defaultLimit : Nat := 10000

/-- Applies the script to the matches still to come, at most `limit` of them. -/
def runFrom (r : Rule) : Nat → Enumeration → Tree → Tree × Report
  | limit, e, t =>
    if t.isEmpty then (t, .nothing)
    else
      match limit, e.next t with
      | _, (none, _) => (t, .nothing)
      | 0, (some _, _) => (t, { Report.nothing with limitReached := true })
      | limit + 1, (some m, e) =>
        let o := r.script.apply t m
        let e := if o.restructured then .start r.pattern .allBindings o.tree else e
        let (t, report) := r.runFrom limit e o.tree
        (t, ⟨1, o.diagnostics, false⟩ ++ report)

/-- Applies the script to the matches in a tree, at most `limit` of them. -/
def run (r : Rule) (limit : Nat) (t : Tree) : Tree × Report :=
  r.runFrom limit (.start r.pattern .allBindings t) t

/-- Runs several rules, one after the other, each with the full limit. -/
def runAll (limit : Nat) : List Rule → Tree → Tree × Report
  | [], t => (t, .nothing)
  | r :: rs, t =>
    let (t, report) := r.run limit t
    let (t, more) := runAll limit rs t
    (t, report ++ more)

end Rule

end Constituency
