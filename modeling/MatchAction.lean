import MatchAction.SortedMap
import MatchAction.Ty
import MatchAction.PrefixMask
import MatchAction.Symbol
import MatchAction.Term.Basic
import MatchAction.Term.Eval
import MatchAction.Program.Basic
import MatchAction.Program.Catalog
import MatchAction.Store.Binding
import MatchAction.Store.Config
import MatchAction.Store.Basic
import MatchAction.Report
import MatchAction.Text.Hidden
import MatchAction.Text.Quoted
import MatchAction.Octets
import MatchAction.Match.Predicate
import MatchAction.Record.Basic
import MatchAction.Record.Match
import MatchAction.Outcome
import MatchAction.Record.Load
import MatchAction.Target
import MatchAction.Embedded.Match
import MatchAction.Embedded.Seed
import MatchAction.Resolve.Core
import MatchAction.Resolve.Handler
import MatchAction.Resolve.Basic
import MatchAction.Document.Tree
import MatchAction.Document.Decode
import MatchAction.Record.Decode
import MatchAction.Document.Json.Number
import MatchAction.Document.Json.Text
import MatchAction.Document.Json.Reader
import MatchAction.Document.Yaml.Source
import MatchAction.Document.Yaml.Cursor
import MatchAction.Document.Yaml.Token
import MatchAction.Document.Yaml.Scalar
import MatchAction.Document.Yaml.Tag
import MatchAction.Document.Yaml.Scanner
import MatchAction.Document.Yaml.Node
import MatchAction.Document.Yaml.Reading
import MatchAction.Document.Yaml.Reader
import MatchAction.Document.Format
import MatchAction.Document.Kinds
import MatchAction.Settings
import MatchAction.Run
import MatchAction.Proofs.Term.Decides
import MatchAction.Proofs.Store.FirstMatch
import MatchAction.Proofs.Attempt
import MatchAction.Proofs.Latest
import MatchAction.Proofs.SortedMap
import MatchAction.Proofs.Record.Conversion
import MatchAction.Proofs.ModularArithmetic
import MatchAction.Proofs.PrefixMask
import MatchAction.Proofs.Resolve.Convergence
import MatchAction.Proofs.Embedded.Equivalence
import MatchAction.Proofs.Term.Typing
import MatchAction.Proofs.Store.Lookup
import MatchAction.Proofs.Record.Accounting
import MatchAction.Proofs.KeySet
import MatchAction.Proofs.Term.Formula
import MatchAction.Proofs.Term.Rendering
import MatchAction.Proofs.KeyPredicate
import MatchAction.Proofs.Store.Declared
import MatchAction.Proofs.Run
import MatchAction.Proofs.Store.Log
import MatchAction.Proofs.Outcome
import MatchAction.Proofs.Record.Concatenation
import MatchAction.Proofs.Embedded.Seed
import MatchAction.Proofs.Store.Precedence
import MatchAction.Proofs.Precedence
import MatchAction.Proofs.Lists
import MatchAction.Proofs.Record.Reordering
import MatchAction.Proofs.Symbol
import MatchAction.Proofs.Resolve.Admission
import MatchAction.Proofs.Octets
import MatchAction.Proofs.Document.Json
import MatchAction.Proofs.Document.Layout
import MatchAction.Proofs.Record.Form
import MatchAction.Proofs.Record.RoundTrip
import MatchAction.Proofs.Record.Arguments
import MatchAction.Proofs.Record.Meaning
import MatchAction.Proofs.Resolve.HitCondition
import MatchAction.Proofs.Resolve.Taint
import MatchAction.Proofs.Store.Rearrangement
import MatchAction.Proofs.Record.Listing
import MatchAction.Proofs.HexText
import MatchAction.Proofs.Store.Symbols
import MatchAction.Proofs.Document.Settled
import MatchAction.Proofs.Document.Acceptance
import MatchAction.Proofs.Document.Choice
import MatchAction.Proofs.Record.Selection
import MatchAction.Proofs.Term.Operands
import MatchAction.Proofs.Term.Bindings
import MatchAction.Proofs.Resolve.Chain
import MatchAction.Proofs.Embedded.Extension
import MatchAction.Proofs.Resolve.LongPrefix
import MatchAction.Proofs.Program.Registration
import MatchAction.Proofs.Term.Scan
