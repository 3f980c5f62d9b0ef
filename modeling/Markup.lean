import Markup.AnyListener
import Markup.Main
import Markup.Proofs.Input.OpenEntities
import Markup.Proofs.Input.Operations
import Markup.Proofs.Input.Shallow
import Markup.Proofs.Input.SourceReads
import Markup.Proofs.Reader.Reaches
import Markup.Proofs.Reader.Parallel
import Markup.Proofs.Reader.Lockstep
import Markup.Proofs.Reader.EntityReferences
import Markup.Proofs.Termination
import Markup.Proofs.SourceReferences
import Markup.Proofs.Session.Alike
import Markup.Proofs.Inlining
import Markup.Proofs.Reader.RawText
import Markup.Proofs.Events.Regular
import Markup.Proofs.Events.Operations
import Markup.Proofs.Events.Effects
import Markup.Proofs.Reader.Sound
import Markup.Proofs.Reader.Steps
import Markup.Proofs.Reader.Modes
import Markup.Proofs.Reader.Delivery
import Markup.Proofs.Events.Nested
import Markup.Proofs.Nesting
import Markup.Proofs.Inference
import Markup.Proofs.Rereading.Characters
import Markup.Proofs.Rereading.StartTags
import Markup.Proofs.Rereading.EndTags
import Markup.Proofs.Rereading.Passages
import Markup.Proofs.Normalization
import Markup.Proofs.Forest
import Markup.Proofs.Reader.Sources
import Markup.Proofs.Session.Interruption
import Markup.Proofs.Truncation
import Markup.Proofs.NormalForm
import Markup.Proofs.Reader.Checkpoints
import Markup.Proofs.Cancellation
import Markup.Proofs.Lexis.Bodies
import Markup.Proofs.Lexis.Runs
import Markup.Proofs.Lexis.LineTokens
import Markup.Proofs.Lexis.Lines
import Markup.Proofs.LineByLine
import Markup.Proofs.Lexis.Lookahead
import Markup.Proofs.Text.Boundaries
import Markup.Proofs.Lexis.Ranges
import Markup.Proofs.Resumption
import Markup.Proofs.Coverage
import Markup.Proofs.Decoding
import Markup.Proofs.Input.LineCount
import Markup.Proofs.LineNumbers
import Markup.Proofs.Writer.Carryover
import Markup.Proofs.Writer.Reuse
import Markup.Proofs.Input.LineEnds
import Markup.Proofs.Reader.LineEnds
import Markup.Proofs.LineEnds
import Markup.Proofs.Placement
import Markup.Proofs.Html.Anchors
import Markup.Proofs.Input.Skip
import Markup.Proofs.Reader.Skipping
import Markup.Proofs.Session.Quiet
import Markup.Proofs.IgnoredMarkup
import Markup.Proofs.Reader.Traversal
import Markup.Proofs.Reader.NumericReferences
import Markup.Proofs.NumericReferences
import Markup.Proofs.Reader.Attributes
import Markup.Proofs.EntitiesInValues
import Markup.Proofs.AttributeLists
import Markup.Proofs.Reader.RawScanning
import Markup.Proofs.VerbatimContent
import Markup.Proofs.Validity
import Markup.Proofs.Enclosures
import Markup.Proofs.EmptyTokens
import Markup.Proofs.Keywords
import Markup.Proofs.Isolation
import Markup.Proofs.Context
