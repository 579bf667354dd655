import Constituency.Text.Chars
import Constituency.Label
import Constituency.Rose
import Constituency.Tree.Basic
import Constituency.Tree.Edit
import Constituency.Tree.Request
import Constituency.Bracket.Token
import Constituency.Bracket.Parser
import Constituency.Bracket.Printer
import Constituency.Bracket.Stream
import Constituency.Bracket.Assembly
import Constituency.Bracket.Iteration
import Constituency.Text.CharSet
import Constituency.Text.Category
import Constituency.Text.Script
import Constituency.Text.Age
import Constituency.Text.Property
import Constituency.Text.Segmentation
import Constituency.Text.Folding
import Constituency.Text.ByteRanges
import Constituency.Regex.NamedClass
import Constituency.Regex.Basic
import Constituency.Regex.Parser
import Constituency.Regex.Footprint.Basic
import Constituency.Regex.Footprint.Class
import Constituency.Regex.Footprint.Expr
import Constituency.Regex.Program
import Constituency.Regex.Matching
import Constituency.Tree.Index
import Constituency.Pattern.Description
import Constituency.Pattern.Relation
import Constituency.Pattern.Basic
import Constituency.Search.Solutions
import Constituency.Search.Row
import Constituency.Search.Machine
import Constituency.Search.Enumeration
import Constituency.Grammar.Basic
import Constituency.Grammar.Recognizer
import Constituency.Pattern.Grammar
import Constituency.Pattern.Reader
import Constituency.Surgery.Template
import Constituency.Surgery.Replacement
import Constituency.Surgery.Operation
import Constituency.Surgery.Grammar
import Constituency.Surgery.Reader
import Constituency.Surgery.Edit
import Constituency.Surgery.Application
import Constituency.Surgery.Process
import Constituency.Surgery.RuleFile
import Constituency.Search.Treebank
import Constituency.Proofs.Rose
import Constituency.Proofs.Text.Chars
import Constituency.Proofs.Tree.Links
import Constituency.Proofs.Tree.WellFormed
import Constituency.Proofs.Tree.Traversal
import Constituency.Proofs.Tree.Graft
import Constituency.Proofs.Tree.Preservation
import Constituency.Proofs.Tree.Requests
import Constituency.Proofs.Tree.Places
import Constituency.Proofs.Search.Answers
import Constituency.Proofs.Search.Roots
import Constituency.Proofs.Search.Matches
import Constituency.Proofs.Search.Known
import Constituency.Proofs.Surgery.Outcome
import Constituency.Proofs.Surgery.Edit
import Constituency.Proofs.Surgery.Steps
import Constituency.Proofs.Surgery.Operation
import Constituency.Proofs.Surgery.Refusals
import Constituency.Proofs.Surgery.Process
import Constituency.Proofs.Session
import Constituency.Proofs.Tree.Revision
import Constituency.Proofs.Tree.Order
import Constituency.Proofs.Tree.Shape
import Constituency.Proofs.Surgery.Uncounted
import Constituency.Proofs.Search.Staleness
import Constituency.Proofs.Label.Coindex
import Constituency.Proofs.Bracket.Reading
import Constituency.Proofs.Bracket.RoundTrip
import Constituency.Proofs.Renumbering.Tree
import Constituency.Proofs.Renumbering.Edits
import Constituency.Proofs.Renumbering.Candidates
import Constituency.Proofs.Renumbering.Search
import Constituency.Proofs.Renumbering.Changes
import Constituency.Proofs.Renumbering.Surgery
import Constituency.Proofs.Renumbering.Isomorphism
import Constituency.Proofs.Tree.Descent
import Constituency.Proofs.Tree.Leaves
import Constituency.Proofs.Tree.Indexing
import Constituency.Proofs.Relation.Meaning
import Constituency.Proofs.Relation.Candidates
import Constituency.Proofs.Relation.Precedence
import Constituency.Proofs.Renumbering.Resuming
import Constituency.Proofs.Surgery.Exhaustion
import Constituency.Proofs.Grammar.Shape
import Constituency.Proofs.Pattern.Captures
import Constituency.Proofs.Search.Calls
import Constituency.Proofs.Search.Branches
import Constituency.Proofs.Surgery.Names
import Constituency.Proofs.Surgery.Unresolved
import Constituency.Proofs.Pattern.Occurrences
import Constituency.Proofs.Search.Variables
import Constituency.Proofs.Search.Paths
import Constituency.Proofs.Search.Narrowing
import Constituency.Proofs.Search.Bound
import Constituency.Proofs.Surgery.Relabelling
import Constituency.Proofs.Search.Demands
import Constituency.Proofs.Bracket.Lines
import Constituency.Proofs.Grammar.Reading
import Constituency.Proofs.Grammar.Bounds
import Constituency.Proofs.Grammar.Tokens
import Constituency.Proofs.Grammar.Steady
import Constituency.Proofs.Surgery.Tokens
import Constituency.Proofs.Surgery.Separators
import Constituency.Proofs.Surgery.Labels
import Constituency.Proofs.Surgery.Lines
import Constituency.Proofs.Surgery.Scripts
import Constituency.Proofs.Surgery.Positions
import Constituency.Proofs.Surgery.Joining
import Constituency.Proofs.Pattern.Writing
import Constituency.Proofs.Pattern.Tokens
import Constituency.Proofs.Pattern.Descriptions
import Constituency.Proofs.Pattern.Relations
import Constituency.Proofs.Pattern.Conditions
import Constituency.Proofs.Pattern.RoundTrip
import Constituency.Proofs.Search.Reordering
import Constituency.Proofs.Tree.Rearranging
import Constituency.Proofs.Surgery.Templates
import Constituency.Proofs.Surgery.Insertion
import Constituency.Proofs.Surgery.Replacing
import Constituency.Proofs.Surgery.Enclosing
import Constituency.Proofs.Surgery.Adjoining
import Constituency.Proofs.Surgery.Adjoined
import Constituency.Proofs.Grammar.Parts
import Constituency.Proofs.Surgery.References
import Constituency.Proofs.Surgery.Resolution
import Constituency.Proofs.Surgery.EachNode
import Constituency.Proofs.Surgery.Coindexing
import Constituency.Proofs.Tree.Trimming
import Constituency.Proofs.Surgery.Pruning
import Constituency.Proofs.Tree.Copies
import Constituency.Proofs.Surgery.Instances
import Constituency.Proofs.Bracket.Tokens
import Constituency.Proofs.Bracket.Items
import Constituency.Proofs.Bracket.Assembly
import Constituency.Proofs.Bracket.Groups
import Constituency.Proofs.Bracket.Parts
import Constituency.Proofs.Bracket.Division
import Constituency.Proofs.Bracket.Order
import Constituency.Proofs.Bracket.Iteration
import Constituency.Proofs.Bracket.Balanced
import Constituency.Proofs.Bracket.Pieces
import Constituency.Proofs.Tree.Replaced
import Constituency.Proofs.Surgery.Limits
import Constituency.Proofs.Surgery.Quoting
import Constituency.Proofs.Surgery.Leftovers
import Constituency.Proofs.Pattern.BareLabels
import Constituency.Proofs.Surgery.RuleFiles
import Constituency.Proofs.Label.Annotations
import Constituency.Proofs.Surgery.ReplacementText
import Constituency.Proofs.Pattern.Seams
import Constituency.Proofs.Pattern.Brackets
import Constituency.Proofs.Pattern.Places
import Constituency.Proofs.Pattern.Parentheses
import Constituency.Proofs.Search.Merging
import Constituency.Proofs.Search.Conjoined
