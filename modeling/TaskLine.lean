import TaskLine.Attempt
import TaskLine.Binary64
import TaskLine.Binary64.Decimal
import TaskLine.Caret
import TaskLine.Chunk
import TaskLine.Clock
import TaskLine.Command.Arguments
import TaskLine.Command.Basic
import TaskLine.Command.Run
import TaskLine.DateToken
import TaskLine.Desk
import TaskLine.Document
import TaskLine.Editor.Buffer
import TaskLine.Editor.Pane
import TaskLine.Editor.Session
import TaskLine.Editor.StatusBar
import TaskLine.Editor.TextBuffer
import TaskLine.Envelope
import TaskLine.Files.Fault
import TaskLine.Files.Home
import TaskLine.Files.Path
import TaskLine.Files.Store
import TaskLine.Format
import TaskLine.Formatter.Basic
import TaskLine.Formatter.File
import TaskLine.Formatter.Line
import TaskLine.Formatter.Progress
import TaskLine.Host
import TaskLine.Line
import TaskLine.Listeners
import TaskLine.Main
import TaskLine.Markdown
import TaskLine.Markup.Attribute
import TaskLine.Markup.Build
import TaskLine.Markup.Tag
import TaskLine.Markup.Template
import TaskLine.Markup.Wrapper
import TaskLine.Member
import TaskLine.Order
import TaskLine.Pieces
import TaskLine.Proofs.Acceptance
import TaskLine.Proofs.Assignment.Chip
import TaskLine.Proofs.Assignment.Command
import TaskLine.Proofs.Assignment.Line
import TaskLine.Proofs.Assignment.Reading
import TaskLine.Proofs.Attributes
import TaskLine.Proofs.Blotting
import TaskLine.Proofs.Breaks
import TaskLine.Proofs.Caret.Coverage
import TaskLine.Proofs.Caret.Following
import TaskLine.Proofs.Caret.Words
import TaskLine.Proofs.Classification
import TaskLine.Proofs.Clearing
import TaskLine.Proofs.Command.Format
import TaskLine.Proofs.Command.Printing
import TaskLine.Proofs.Content
import TaskLine.Proofs.Creating
import TaskLine.Proofs.Editor.Agreement
import TaskLine.Proofs.Editor.Barrier
import TaskLine.Proofs.Editor.Course
import TaskLine.Proofs.Editor.Enter
import TaskLine.Proofs.Editor.Lawful
import TaskLine.Proofs.Editor.Positions
import TaskLine.Proofs.Emergence
import TaskLine.Proofs.Formatter.Agreement
import TaskLine.Proofs.Formatter.Cancellation
import TaskLine.Proofs.Formatter.Course
import TaskLine.Proofs.Formatter.Extent
import TaskLine.Proofs.Formatter.Headway
import TaskLine.Proofs.Formatter.Placement
import TaskLine.Proofs.Formatter.Record
import TaskLine.Proofs.Formatter.Reporting
import TaskLine.Proofs.Formatter.SingleLine
import TaskLine.Proofs.Formatter.Snapshot
import TaskLine.Proofs.Formatter.Stopping
import TaskLine.Proofs.Formatter.Writing
import TaskLine.Proofs.Found
import TaskLine.Proofs.Frame
import TaskLine.Proofs.Gaps
import TaskLine.Proofs.Idempotence
import TaskLine.Proofs.Imitation
import TaskLine.Proofs.Instance
import TaskLine.Proofs.Interleaving
import TaskLine.Proofs.Landmarks
import TaskLine.Proofs.Layout
import TaskLine.Proofs.Overlap
import TaskLine.Proofs.Placement
import TaskLine.Proofs.Ranges
import TaskLine.Proofs.ReadBack
import TaskLine.Proofs.Recognition
import TaskLine.Proofs.References
import TaskLine.Proofs.Reformatting
import TaskLine.Proofs.Replacing
import TaskLine.Proofs.Rereading
import TaskLine.Proofs.RoundTrip
import TaskLine.Proofs.Scanning
import TaskLine.Proofs.Schedule.Admission
import TaskLine.Proofs.Schedule.Calls
import TaskLine.Proofs.Schedule.Coalescing
import TaskLine.Proofs.Schedule.Coherence
import TaskLine.Proofs.Schedule.Debounce
import TaskLine.Proofs.Schedule.Disposal
import TaskLine.Proofs.Schedule.Effects
import TaskLine.Proofs.Schedule.Effort
import TaskLine.Proofs.Schedule.Failure
import TaskLine.Proofs.Schedule.FollowUp
import TaskLine.Proofs.Schedule.Keeping
import TaskLine.Proofs.Schedule.LineRun
import TaskLine.Proofs.Schedule.Moments
import TaskLine.Proofs.Schedule.Pending
import TaskLine.Proofs.Schedule.Readiness
import TaskLine.Proofs.Schedule.Refusal
import TaskLine.Proofs.Schedule.Settling
import TaskLine.Proofs.Schedule.Signals
import TaskLine.Proofs.Schedule.Subscriptions
import TaskLine.Proofs.Schedule.Superseding
import TaskLine.Proofs.Schedule.Timers
import TaskLine.Proofs.Schedule.Turns
import TaskLine.Proofs.Schedule.Waiting
import TaskLine.Proofs.Seating
import TaskLine.Proofs.Settings.Command
import TaskLine.Proofs.Settings.Given
import TaskLine.Proofs.Settings.Mapping
import TaskLine.Proofs.Settings.Reading
import TaskLine.Proofs.Settings.Storing
import TaskLine.Proofs.Shape
import TaskLine.Proofs.Sorting
import TaskLine.Proofs.Spacing
import TaskLine.Proofs.Spelling
import TaskLine.Proofs.Survival
import TaskLine.Proofs.Tidying
import TaskLine.Proofs.Tokens
import TaskLine.Proofs.TrailingSpace
import TaskLine.Proofs.Words
import TaskLine.Proofs.Yaml.Lawful
import TaskLine.Proofs.Yaml.Making
import TaskLine.Proofs.Yaml.Reaching
import TaskLine.Proofs.Yaml.Renumbering
import TaskLine.Proofs.Yaml.Returns
import TaskLine.Schedule.Delay
import TaskLine.Schedule.Loop
import TaskLine.Schedule.Machine
import TaskLine.Schedule.Request
import TaskLine.Schedule.Trigger
import TaskLine.Schedule.Warning
import TaskLine.Selection
import TaskLine.Settings.Store
import TaskLine.Settings.Value
import TaskLine.Task
import TaskLine.Text.Basic
import TaskLine.Text.Digits
import TaskLine.Text.LetterCase
import TaskLine.Text.Quoted
import TaskLine.Text.Ranges
import TaskLine.Text.Utf8
import TaskLine.Text.WordChar
import TaskLine.Yaml.Base64
import TaskLine.Yaml.Char
import TaskLine.Yaml.Cursor
import TaskLine.Yaml.Document
import TaskLine.Yaml.Kind
import TaskLine.Yaml.Library
import TaskLine.Yaml.Merge
import TaskLine.Yaml.Moment
import TaskLine.Yaml.Node
import TaskLine.Yaml.Number
import TaskLine.Yaml.Page
import TaskLine.Yaml.Style
import TaskLine.Yaml.Token.Basic
import TaskLine.Yaml.Token.Block
import TaskLine.Yaml.Token.Layout
import TaskLine.Yaml.Token.Name
import TaskLine.Yaml.Token.Plain
import TaskLine.Yaml.Token.Quoted
import TaskLine.Yaml.Value
import TaskLine.Yaml.Words
import TaskLine.Yaml.Writer
