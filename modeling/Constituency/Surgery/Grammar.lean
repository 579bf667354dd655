import Constituency.Grammar.Recognizer

/-!
# The grammar of scripts

Operations stand on lines of their own or are separated by semicolons; a percent sign begins a
comment:

    relabel inner VP
    insert (DT the) >1 np
    adjoin (VP (ADVP really) VP@) vp
    if not exists det delete np
-/

namespace Constituency

/-- The rules of scripts, in the order in which failures name them. -/
inductive ScriptRule where
  | endOfText
  | script
  | operation
  | delete
  | prune
  | excise
  | relabel
  | insert
  | move
  | replace
  | adjoin
  | createSubtree
  | coindex
  | ifExists
  | deleteWord
  | pruneWord
  | exciseWord
  | relabelWord
  | insertWord
  | moveWord
  | replaceWord
  | adjoinWord
  | createSubtreeWord
  | coindexWord
  | ifWord
  | notWord
  | existsWord
  | operand
  | position
  | positionOp
  | template
  | newLabel
  | relabelRegex
  | regexBody
  | replacement
  | quoted
  | quotedBody
  | bareLabel
  | name
deriving DecidableEq, Repr

namespace ScriptRule

/-- The rules in order. -/
def all : List ScriptRule :=
  [endOfText, script, operation, delete, prune, excise, relabel, insert, move, replace, adjoin,
    createSubtree, coindex, ifExists, deleteWord, pruneWord, exciseWord, relabelWord, insertWord,
    moveWord, replaceWord, adjoinWord, createSubtreeWord, coindexWord, ifWord, notWord, existsWord,
    operand, position, positionOp, template, newLabel, relabelRegex, regexBody, replacement,
    quoted, quotedBody, bareLabel, name]

/-- What a failure calls a rule. -/
def display : ScriptRule → String
  | endOfText => "EOI"
  | script => "script"
  | operation => "operation"
  | delete => "delete"
  | prune => "prune"
  | excise => "excise"
  | relabel => "relabel"
  | insert => "insert"
  | move => "move_node"
  | replace => "replace"
  | adjoin => "adjoin"
  | createSubtree => "create_subtree"
  | coindex => "coindex"
  | ifExists => "if_exists"
  | deleteWord => "delete_kw"
  | pruneWord => "prune_kw"
  | exciseWord => "excise_kw"
  | relabelWord => "relabel_kw"
  | insertWord => "insert_kw"
  | moveWord => "move_kw"
  | replaceWord => "replace_kw"
  | adjoinWord => "adjoin_kw"
  | createSubtreeWord => "create_subtree_kw"
  | coindexWord => "coindex_kw"
  | ifWord => "if_kw"
  | notWord => "not_kw"
  | existsWord => "exists_kw"
  | operand => "operand"
  | position => "position"
  | positionOp => "position_op"
  | template => "aux_tree"
  | newLabel => "new_label"
  | relabelRegex => "relabel_regex"
  | regexBody => "regex_body"
  | replacement => "replacement"
  | quoted => "quoted"
  | quotedBody => "quoted_body"
  | bareLabel => "bare_label"
  | name => "name"

open Grammar Grammar.Expr

/-- A blank inside a line. -/
def blank : Expr ScriptRule := oneChar [' ', '\t']

/-- A comment, up to the end of its line. -/
def comment : Expr ScriptRule := lit "%" ++ many (absent newline ++ anyChar)

/-- What separates operations. -/
def separator : Expr ScriptRule := newline ||| lit ";"

/-- A word that does not run on into a name. -/
def word (ws : List String) : Expr ScriptRule :=
  oneOf ws ++ absent (char Text.isNameChar)

/-- Text up to a delimiter that no backslash stands before, and to `stop`. -/
def escapedBody (delimiter : Char) (stop : Expr ScriptRule) : Expr ScriptRule :=
  many (lit "\\\\" ||| text ['\\', delimiter] ||| absent stop ++ anyChar)

/-- What each rule stands for. -/
def body : ScriptRule → Expr ScriptRule
  | endOfText => textEnd
  | script =>
    textStart ++ many separator
      ++ opt (rule operation ++ many (oneOrMore separator ++ rule operation))
      ++ many separator ++ rule endOfText
  | operation =>
    rule ifExists ||| rule delete ||| rule prune ||| rule excise ||| rule relabel ||| rule insert
      ||| rule move ||| rule replace ||| rule adjoin ||| rule createSubtree ||| rule coindex
  | delete => rule deleteWord ++ oneOrMore (rule name)
  | prune => rule pruneWord ++ oneOrMore (rule name)
  | excise => rule exciseWord ++ rule name ++ rule name
  | relabel => rule relabelWord ++ rule name ++ rule newLabel
  | insert => rule insertWord ++ rule operand ++ rule position
  | move => rule moveWord ++ rule name ++ rule position
  | replace => rule replaceWord ++ rule name ++ oneOrMore (rule operand)
  | adjoin => rule adjoinWord ++ rule template ++ rule name
  | createSubtree => rule createSubtreeWord ++ rule template ++ rule name ++ opt (rule name)
  | coindex => rule coindexWord ++ oneOrMore (rule name)
  | ifExists => rule ifWord ++ opt (rule notWord) ++ rule existsWord ++ rule name ++ rule operation
  | deleteWord => word ["delete"]
  | pruneWord => word ["prune"]
  | exciseWord => word ["excise"]
  | relabelWord => word ["relabel"]
  | insertWord => word ["insert"]
  | moveWord => word ["move"]
  | replaceWord => word ["replace"]
  | adjoinWord => word ["adjoinH", "adjoinF", "adjoin"]
  | createSubtreeWord => word ["createSubtree"]
  | coindexWord => word ["coindex"]
  | ifWord => word ["if"]
  | notWord => word ["not"]
  | existsWord => word ["exists"]
  | operand => rule template ||| rule name
  | position => rule positionOp ++ rule name
  | positionOp =>
    lit "$+" ||| lit "$-" ||| lit ">" ++ opt (lit "-") ++ oneOrMore (char Char.isDigit)
  | template =>
    lit "(" ++ many (rule template ||| absent (oneChar ['(', ')']) ++ anyChar) ++ lit ")"
  | newLabel => rule relabelRegex ||| rule quoted ||| rule bareLabel
  | relabelRegex => lit "/" ++ rule regexBody ++ lit "/" ++ rule replacement ++ lit "/"
  | regexBody => escapedBody '/' (lit "/")
  | replacement => escapedBody '/' (lit "/" ||| newline)
  | quoted => lit "\"" ++ rule quotedBody ++ lit "\""
  | quotedBody => escapedBody '"' (lit "\"")
  | bareLabel =>
    oneOrMore (absent (blank ||| newline ||| oneChar [';', '%', '(', ')']) ++ anyChar)
  | name => oneOrMore (char Text.isNameChar)

/-- How each rule treats blanks. -/
def kind : ScriptRule → Kind
  | relabelRegex | quoted => .tight
  | deleteWord | pruneWord | exciseWord | relabelWord | insertWord | moveWord | replaceWord
  | adjoinWord | createSubtreeWord | coindexWord | ifWord | notWord | existsWord
  | positionOp | template | regexBody | replacement | quotedBody | bareLabel | name => .token
  | _ => .spaced

end ScriptRule

/-- The grammar of scripts. -/
def scriptGrammar : Grammar ScriptRule where
  rules := ScriptRule.all
  kind := ScriptRule.kind
  body := ScriptRule.body
  space := .many ScriptRule.blank ++ .many (ScriptRule.comment ++ .many ScriptRule.blank)

end Constituency
