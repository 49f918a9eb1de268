import TypeTrace.CommandLine.Arguments
import TypeTrace.CommandLine.Directory
import TypeTrace.CommandLine.Report
import TypeTrace.CommandLine.Run
import TypeTrace.Config
import TypeTrace.Flow.Element
import TypeTrace.Flow.Entry
import TypeTrace.Flow.Event
import TypeTrace.Flow.Graph
import TypeTrace.Flow.Pairing
import TypeTrace.Flow.Resolve
import TypeTrace.Flow.Search
import TypeTrace.Flow.Subject
import TypeTrace.Format.Decimal
import TypeTrace.Format.Json
import TypeTrace.Format.JsonReader
import TypeTrace.Format.Toml
import TypeTrace.Format.TomlNumber
import TypeTrace.Format.TomlReader
import TypeTrace.Main
import TypeTrace.Oracle.Basic
import TypeTrace.Oracle.Builtin
import TypeTrace.Proofs.CommandLine.Position
import TypeTrace.Proofs.Flow.Agreement
import TypeTrace.Proofs.Flow.Anchor
import TypeTrace.Proofs.Flow.Builder
import TypeTrace.Proofs.Flow.Closure
import TypeTrace.Proofs.Flow.Completeness
import TypeTrace.Proofs.Flow.Content
import TypeTrace.Proofs.Flow.Derivation
import TypeTrace.Proofs.Flow.Descent
import TypeTrace.Proofs.Flow.Destructuring
import TypeTrace.Proofs.Flow.Forest
import TypeTrace.Proofs.Flow.Journal
import TypeTrace.Proofs.Flow.Limits
import TypeTrace.Proofs.Flow.Pairing
import TypeTrace.Proofs.Flow.Query
import TypeTrace.Proofs.Flow.Reachability
import TypeTrace.Proofs.Flow.Reading
import TypeTrace.Proofs.Flow.Returns
import TypeTrace.Proofs.Flow.Search
import TypeTrace.Proofs.Flow.Soundness
import TypeTrace.Proofs.Flow.Tasks
import TypeTrace.Proofs.Flow.Vantage
import TypeTrace.Proofs.Keyed
import TypeTrace.Proofs.Oracle.Builtin
import TypeTrace.Proofs.Source.Store
import TypeTrace.Proofs.Syntax.Definitions
import TypeTrace.Proofs.Syntax.Laminar
import TypeTrace.Proofs.Syntax.Preorder
import TypeTrace.Proofs.Syntax.Sight
import TypeTrace.Proofs.Syntax.Visits
import TypeTrace.Proofs.Text.Blank
import TypeTrace.Proofs.Text.Lines
import TypeTrace.Proofs.Types.Descriptor
import TypeTrace.Proofs.Types.Hint
import TypeTrace.Proofs.Types.Join
import TypeTrace.Proofs.Types.Members
import TypeTrace.Proofs.Types.Names
import TypeTrace.Proofs.View.Collection
import TypeTrace.Proofs.View.Groups
import TypeTrace.Proofs.View.Highlight
import TypeTrace.Proofs.View.Outline
import TypeTrace.Proofs.View.Picture
import TypeTrace.Proofs.View.Summary
import TypeTrace.Proofs.View.Unfolding
import TypeTrace.Settings
import TypeTrace.Source.Naming
import TypeTrace.Source.Path
import TypeTrace.Source.Project
import TypeTrace.Source.Unit
import TypeTrace.Syntax.Function
import TypeTrace.Syntax.Kind
import TypeTrace.Syntax.Locate
import TypeTrace.Syntax.Node
import TypeTrace.Syntax.Reader
import TypeTrace.Syntax.Scope
import TypeTrace.Syntax.Tree
import TypeTrace.Syntax.Walk
import TypeTrace.Text.Blank
import TypeTrace.Text.Bytes
import TypeTrace.Text.Digits
import TypeTrace.Text.Lines
import TypeTrace.Text.Quoted
import TypeTrace.Types.Descriptor
import TypeTrace.Types.Hint
import TypeTrace.Types.Members
import TypeTrace.View.Summary
import TypeTrace.View.Tree
