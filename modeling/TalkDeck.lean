import TalkDeck.Catalog.Basic
import TalkDeck.Catalog.Standard
import TalkDeck.Command.Basic
import TalkDeck.Command.Lint
import TalkDeck.Command.Parse
import TalkDeck.Command.Server
import TalkDeck.Complaint
import TalkDeck.Completion
import TalkDeck.Context
import TalkDeck.Debounce
import TalkDeck.Deck.Block
import TalkDeck.Deck.Document
import TalkDeck.Deck.Fragment
import TalkDeck.Deck.Inline
import TalkDeck.Deck.Line
import TalkDeck.Definition
import TalkDeck.Diagnostic
import TalkDeck.Edit
import TalkDeck.EditDistance
import TalkDeck.Hover
import TalkDeck.Journal
import TalkDeck.Json
import TalkDeck.Limits
import TalkDeck.Lint.FileTree
import TalkDeck.Lint.Glob
import TalkDeck.Lint.Path
import TalkDeck.Lint.Report
import TalkDeck.Lint.Run
import TalkDeck.Main
import TalkDeck.Number.Binary64
import TalkDeck.Number.Lenient
import TalkDeck.Number.Numeral
import TalkDeck.Number.Power
import TalkDeck.Number.Shortest
import TalkDeck.Outline
import TalkDeck.Position
import TalkDeck.Proofs.Completion
import TalkDeck.Proofs.Context.Agreement
import TalkDeck.Proofs.Context.Span
import TalkDeck.Proofs.Debounce
import TalkDeck.Proofs.Deck.Aligned
import TalkDeck.Proofs.Deck.Boundary
import TalkDeck.Proofs.Deck.Break
import TalkDeck.Proofs.Deck.Carried
import TalkDeck.Proofs.Deck.Closing
import TalkDeck.Proofs.Deck.Down
import TalkDeck.Proofs.Deck.Fault
import TalkDeck.Proofs.Deck.Fences
import TalkDeck.Proofs.Deck.Field
import TalkDeck.Proofs.Deck.Join
import TalkDeck.Proofs.Deck.Laid
import TalkDeck.Proofs.Deck.Leftmost
import TalkDeck.Proofs.Deck.Line
import TalkDeck.Proofs.Deck.Link
import TalkDeck.Proofs.Deck.Located
import TalkDeck.Proofs.Deck.Numbered
import TalkDeck.Proofs.Deck.Partition
import TalkDeck.Proofs.Deck.Query
import TalkDeck.Proofs.Deck.Ranges
import TalkDeck.Proofs.Deck.Raws
import TalkDeck.Proofs.Deck.Reading
import TalkDeck.Proofs.Deck.Replace
import TalkDeck.Proofs.Deck.RoundTrip
import TalkDeck.Proofs.Deck.Scan
import TalkDeck.Proofs.Deck.Search
import TalkDeck.Proofs.Deck.Sequence
import TalkDeck.Proofs.Deck.Total
import TalkDeck.Proofs.Definition
import TalkDeck.Proofs.Diagnostic.Verdict
import TalkDeck.Proofs.Edit
import TalkDeck.Proofs.EditDistance
import TalkDeck.Proofs.Lint.Agreement
import TalkDeck.Proofs.Lint.Glob
import TalkDeck.Proofs.Lint.Report
import TalkDeck.Proofs.Lint.Stages
import TalkDeck.Proofs.Lint.Tree
import TalkDeck.Proofs.Outline.Folding
import TalkDeck.Proofs.Outline.Nesting
import TalkDeck.Proofs.Position
import TalkDeck.Proofs.QuickFix.Block
import TalkDeck.Proofs.QuickFix.Offer
import TalkDeck.Proofs.QuickFix.Place
import TalkDeck.Proofs.QuickFix.Repair
import TalkDeck.Proofs.QuickFix.Step
import TalkDeck.Proofs.QuickFix.Suggestion
import TalkDeck.Proofs.QuickFix.Trace
import TalkDeck.Proofs.Session.Features
import TalkDeck.Proofs.Session.Publication
import TalkDeck.Proofs.Session.Replies
import TalkDeck.Proofs.Session.Steady
import TalkDeck.Proofs.Session.Stored
import TalkDeck.Proofs.Session.Works
import TalkDeck.Proofs.Text.Percent
import TalkDeck.Proofs.Workspace.Listing
import TalkDeck.Proofs.Workspace.Path
import TalkDeck.Proofs.Workspace.Watch
import TalkDeck.Proofs.Yaml.Blank
import TalkDeck.Proofs.Yaml.Construct
import TalkDeck.Proofs.Yaml.Display
import TalkDeck.Proofs.Yaml.Events
import TalkDeck.Proofs.Yaml.Forward
import TalkDeck.Proofs.Yaml.Layout
import TalkDeck.Proofs.Yaml.Loose
import TalkDeck.Proofs.Yaml.Nodes
import TalkDeck.Proofs.Yaml.Outcome
import TalkDeck.Proofs.Yaml.Passing
import TalkDeck.Proofs.Yaml.Place
import TalkDeck.Proofs.Yaml.Plain
import TalkDeck.Proofs.Yaml.Scalars
import TalkDeck.Proofs.Yaml.Signs
import TalkDeck.Proofs.Yaml.Stops
import TalkDeck.Proofs.Yaml.Tokens
import TalkDeck.Proofs.Yaml.Values
import TalkDeck.QuickFix
import TalkDeck.Session.Basic
import TalkDeck.Session.Step
import TalkDeck.Session.Workspace
import TalkDeck.Settings
import TalkDeck.Settings.EnvFile
import TalkDeck.Settings.Environment
import TalkDeck.Store
import TalkDeck.Text.Blank
import TalkDeck.Text.Case
import TalkDeck.Text.Digit
import TalkDeck.Text.Newline
import TalkDeck.Text.Percent
import TalkDeck.Text.Printable
import TalkDeck.Text.Quoted
import TalkDeck.Text.Split
import TalkDeck.Text.Toggle
import TalkDeck.Text.Utf8
import TalkDeck.Text.Word
import TalkDeck.Wire.Diagnostic
import TalkDeck.Wire.Feature
import TalkDeck.Workspace.Entry
import TalkDeck.Workspace.Index
import TalkDeck.Workspace.Payload
import TalkDeck.Yaml.Cursor
import TalkDeck.Yaml.Display
import TalkDeck.Yaml.Event
import TalkDeck.Yaml.Fault
import TalkDeck.Yaml.Node
import TalkDeck.Yaml.Scalar
import TalkDeck.Yaml.Token
import TalkDeck.Yaml.Token.Block
import TalkDeck.Yaml.Token.Plain
import TalkDeck.Yaml.Token.Quote
import TalkDeck.Yaml.Token.Scan
import TalkDeck.Yaml.Token.Tag
import TalkDeck.Yaml.Value
