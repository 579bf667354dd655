import Constituency.Grammar.Recognizer

/-!
# The grammar of patterns

A pattern is the description of a node followed by the relations the node must stand in. All
relations after a node are relations of that node; a target in parentheses can have relations of
its own:

    NP < (NP=inner $ CC)
    S < (VP !<< /^VB/) | < @FRAG
    NP=np <+(NP) (NN=head :preterminal)

Descriptions are written without blanks inside; a name and predicates may follow in any order.
-/

namespace Constituency

/-- The rules of patterns, in the order in which failures name them. -/
inductive PatternRule where
  | endOfText
  | pattern
  | nodeExpr
  | disjunction
  | conjunction
  | term
  | negation
  | optional
  | relation
  | relationOp
  | chainOp
  | chainDirection
  | nthOp
  | simpleOp
  | description
  | descriptionNegation
  | labelTest
  | wildcard
  | sameNode
  | sameLabel
  | alternatives
  | atom
  | regex
  | regexBody
  | category
  | quoted
  | quotedBody
  | literal
  | predicate
  | predicateKind
  | capture
  | name
deriving DecidableEq, Repr

namespace PatternRule

/-- The rules in order. -/
def all : List PatternRule :=
  [endOfText, pattern, nodeExpr, disjunction, conjunction, term, negation, optional, relation,
    relationOp, chainOp, chainDirection, nthOp, simpleOp, description, descriptionNegation,
    labelTest, wildcard, sameNode, sameLabel, alternatives, atom, regex, regexBody, category,
    quoted, quotedBody, literal, predicate, predicateKind, capture, name]

/-- What a failure calls a rule. -/
def display : PatternRule → String
  | endOfText => "end of pattern"
  | pattern => "pattern"
  | nodeExpr | description | labelTest => "node description"
  | disjunction | conjunction | term | relation => "relation"
  | negation => "negation"
  | optional => "optional"
  | relationOp | chainOp | nthOp | simpleOp => "relation operator"
  | chainDirection => "chain_dir"
  | descriptionNegation => "desc_negation"
  | wildcard => "wildcard"
  | sameNode => "same_node"
  | sameLabel => "same_label"
  | alternatives => "alternatives"
  | atom => "atom"
  | regex => "regex"
  | regexBody => "regex_body"
  | category => "category"
  | quoted => "quoted"
  | quotedBody => "quoted_body"
  | literal => "literal"
  | predicate | predicateKind => "node predicate"
  | capture | name => "name"

/-- The characters that bare labels do not contain. -/
def reserved : List Char :=
  ['(', ')', '[', ']', '/', '|', '!', '=', '<', '>', '$', ',', '.', '?', '~', '%', '&', '@', '#',
    ':', ';', '"']

/-- The characters skipped between the parts of a pattern. -/
def blanks : List Char := [' ', '\t', '\r', '\n']

/-- The tokens of relations without arguments, longer ones first. -/
def relationTokens : List String :=
  ["<<,", "<<-", "<<:", "<<", ">>,", ">>-", ">>:", ">>", "<,", "<-", "<\x60", "<:", "<",
    ">,", ">-", ">\x60", ">:", ">", "$++", "$--", "$..", "$,,", "$+", "$-", "$.", "$,", "$",
    "..", ".", ",,", ",", "=="]

open Grammar Grammar.Expr

/-- A node in parentheses, or a description. -/
def target : Expr PatternRule :=
  lit "(" ++ rule nodeExpr ++ lit ")" ||| rule description

/-- A text between two delimiters, in which a backslash lets the delimiter through. -/
def delimitedBody (delimiter : Char) : Expr PatternRule :=
  many (lit "\\\\" ||| text ['\\', delimiter] ||| absent (text [delimiter]) ++ anyChar)

/-- What each rule stands for. -/
def body : PatternRule → Expr PatternRule
  | endOfText => textEnd
  | pattern => textStart ++ rule nodeExpr ++ rule endOfText
  | nodeExpr => target ++ opt (rule disjunction)
  | disjunction => rule conjunction ++ many (lit "|" ++ rule conjunction)
  | conjunction => rule term ++ many (opt (lit "&") ++ rule term)
  | term =>
    rule negation ++ rule term
      ||| rule optional ++ rule term
      ||| lit "[" ++ rule disjunction ++ lit "]"
      ||| rule relation
  | negation => lit "!"
  | optional => lit "?"
  | relation => rule relationOp ++ target
  | relationOp => rule chainOp ||| rule nthOp ||| rule simpleOp
  | chainOp => rule chainDirection ++ lit "(" ++ rule description ++ lit ")"
  | chainDirection => oneOf ["<+", ">+"]
  | nthOp => (lit "<" ||| lit ">") ++ opt (lit "-") ++ oneOrMore (char Char.isDigit)
  | simpleOp => oneOf relationTokens
  | description =>
    opt (rule descriptionNegation) ++ rule labelTest ++ many (rule predicate ||| rule capture)
  | descriptionNegation => lit "!"
  | labelTest => rule wildcard ||| rule sameNode ||| rule sameLabel ||| rule alternatives
  | wildcard => lit "__" ++ absent (char fun c => c.isAlphanum || c == '_' || c == '-')
  | sameNode => lit "=" ++ rule name
  | sameLabel => (lit "~" ||| lit "%") ++ rule name
  | alternatives => rule atom ++ many (lit "|" ++ rule atom)
  | atom => rule regex ||| rule category ||| rule quoted ||| rule literal
  | regex => lit "/" ++ rule regexBody ++ lit "/"
  | regexBody => delimitedBody '/'
  | category => lit "@" ++ (rule quoted ||| rule literal)
  | quoted => lit "\"" ++ rule quotedBody ++ lit "\""
  | quotedBody => delimitedBody '"'
  | literal => oneOrMore (absent (oneChar (reserved ++ blanks)) ++ anyChar)
  | predicate => lit ":" ++ rule predicateKind
  | predicateKind => oneOf ["leaf", "preterminal", "root"]
  | capture => lit "=" ++ rule name
  | name => oneOrMore (char Text.isNameChar)

/-- How each rule treats blanks. -/
def kind : PatternRule → Kind
  | relationOp | chainOp | description | regex | category | quoted | predicate | capture => .tight
  | nthOp | simpleOp | wildcard | regexBody | quotedBody | literal | name => .token
  | _ => .spaced

end PatternRule

/-- The grammar of patterns. -/
def patternGrammar : Grammar PatternRule where
  rules := PatternRule.all
  kind := PatternRule.kind
  body := PatternRule.body
  space := .many (.oneChar PatternRule.blanks)

end Constituency
