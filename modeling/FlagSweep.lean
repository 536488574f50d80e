import FlagSweep.Cli.Command
import FlagSweep.Cli.FileSystem
import FlagSweep.Cli.Run
import FlagSweep.Config.Fixture
import FlagSweep.Config.Options
import FlagSweep.Edit.Basic
import FlagSweep.Edit.Record
import FlagSweep.Edit.Render
import FlagSweep.Edit.Site
import FlagSweep.Error
import FlagSweep.Flag.Engine
import FlagSweep.Flag.FlagSet
import FlagSweep.Flag.Normalize
import FlagSweep.Flag.Sweep
import FlagSweep.Flag.Verdict
import FlagSweep.Flag.Verify
import FlagSweep.Json.Read
import FlagSweep.Json.Value
import FlagSweep.Json.Write
import FlagSweep.Main
import FlagSweep.Number.Binary64
import FlagSweep.Parse.Class
import FlagSweep.Parse.Declaration
import FlagSweep.Parse.Element
import FlagSweep.Parse.Expr
import FlagSweep.Parse.Function
import FlagSweep.Parse.Grammar
import FlagSweep.Parse.Module
import FlagSweep.Parse.Name
import FlagSweep.Parse.Object
import FlagSweep.Parse.Pattern
import FlagSweep.Parse.Program
import FlagSweep.Parse.State
import FlagSweep.Parse.Stmt
import FlagSweep.Parse.Target
import FlagSweep.Parse.Template
import FlagSweep.Parse.Type
import FlagSweep.Pattern.Basic
import FlagSweep.Pattern.Charclass
import FlagSweep.Pattern.Fault
import FlagSweep.Pattern.Reader
import FlagSweep.Print.Expr
import FlagSweep.Print.Function
import FlagSweep.Print.Part
import FlagSweep.Print.Pattern
import FlagSweep.Print.Piece
import FlagSweep.Print.Render
import FlagSweep.Print.Sequence
import FlagSweep.Print.Stmt
import FlagSweep.Print.Type
import FlagSweep.Print.Writer
import FlagSweep.Text.Charset
import FlagSweep.Text.IdentTable
import FlagSweep.Text.Path
import FlagSweep.Text.Quoted
import FlagSweep.Text.Source
import FlagSweep.Text.Span
import FlagSweep.Text.Utf8
import FlagSweep.Token.Basic
import FlagSweep.Token.Comment
import FlagSweep.Token.Entity
import FlagSweep.Token.Lexeme
import FlagSweep.Token.Problem
import FlagSweep.Token.Scanner
import FlagSweep.Transform
import FlagSweep.Tree.Label
import FlagSweep.Tree.Node
import FlagSweep.Tree.Operator
import FlagSweep.Tree.Walk
import FlagSweep.Proofs.Swept
import FlagSweep.Proofs.Meaning
import FlagSweep.Proofs.Kept
import FlagSweep.Proofs.Placeholders
import FlagSweep.Proofs.Settled
import FlagSweep.Proofs.Erasure
import FlagSweep.Proofs.Idempotence
import FlagSweep.Proofs.Rendering
import FlagSweep.Proofs.Splicing
import FlagSweep.Proofs.Normalized
import FlagSweep.Proofs.Expansion
import FlagSweep.Proofs.Fixpoint
import FlagSweep.Proofs.Literals
import FlagSweep.Proofs.Starts
import FlagSweep.Proofs.Cuts
import FlagSweep.Proofs.Trace
import FlagSweep.Proofs.Outline
import FlagSweep.Proofs.Nesting
import FlagSweep.Proofs.AppliedOnce
import FlagSweep.Proofs.NamesOnly
import FlagSweep.Proofs.Tour
import FlagSweep.Proofs.Comments
import FlagSweep.Proofs.Detection
import FlagSweep.Proofs.Rehomed
import FlagSweep.Proofs.Declarations
import FlagSweep.Proofs.Verdicts
import FlagSweep.Proofs.Isolation
import FlagSweep.Proofs.Maximal
import FlagSweep.Proofs.Replacement
import FlagSweep.Proofs.Slices
import FlagSweep.Proofs.Spacing
import FlagSweep.Proofs.Passages
import FlagSweep.Proofs.Reindentation
import FlagSweep.Proofs.Shrinking
import FlagSweep.Proofs.Unwrapping
import FlagSweep.Proofs.Inlining
import FlagSweep.Proofs.EmptiedObjects
import FlagSweep.Proofs.PlaceholderReports
import FlagSweep.Proofs.HandedOut
