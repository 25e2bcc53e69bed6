import Logline.Color
import Logline.Converter.Basic
import Logline.Converter.Compile
import Logline.Converter.Inspect
import Logline.Converter.LoggerName
import Logline.Converter.Registry
import Logline.Converter.Samples
import Logline.Delivery.Basic
import Logline.Delivery.Config
import Logline.Delivery.Downstream
import Logline.Delivery.Exchange
import Logline.Delivery.Metrics
import Logline.Delivery.Worker
import Logline.Encoder
import Logline.Entries
import Logline.Error
import Logline.Event.Basic
import Logline.Event.Payload
import Logline.Event.Value
import Logline.Filter
import Logline.Json.Fault
import Logline.Json.NumberText
import Logline.Json.Reader
import Logline.Json.Record
import Logline.Json.StringText
import Logline.Json.Token
import Logline.Json.Value
import Logline.Level
import Logline.Number.Double
import Logline.Number.Shortest
import Logline.Outcome
import Logline.Pattern.Node
import Logline.Pattern.Reader
import Logline.Proofs.Converter.Abbreviated
import Logline.Proofs.Converter.Compiled
import Logline.Proofs.Converter.DateOptions
import Logline.Proofs.Converter.Dates
import Logline.Proofs.Converter.Driven
import Logline.Proofs.Converter.EscapeFree
import Logline.Proofs.Converter.History
import Logline.Proofs.Converter.Integers
import Logline.Proofs.Converter.Merged
import Logline.Proofs.Converter.References
import Logline.Proofs.Converter.Rendered
import Logline.Proofs.Converter.Terminal
import Logline.Proofs.Converter.Widths
import Logline.Proofs.Delivery.Accounts
import Logline.Proofs.Delivery.Flushing
import Logline.Proofs.Delivery.Handling
import Logline.Proofs.Delivery.Isolation
import Logline.Proofs.Delivery.Order
import Logline.Proofs.Delivery.Pressure
import Logline.Proofs.Delivery.Session
import Logline.Proofs.Delivery.Starting
import Logline.Proofs.Delivery.Stopping
import Logline.Proofs.Delivery.Tracking
import Logline.Proofs.Encoder.Calls
import Logline.Proofs.Encoder.Displayed
import Logline.Proofs.Encoder.Faults
import Logline.Proofs.Encoder.Independence
import Logline.Proofs.Encoder.OneLine
import Logline.Proofs.Encoder.Segments
import Logline.Proofs.Entries
import Logline.Proofs.Event.Kept
import Logline.Proofs.Event.Lifted
import Logline.Proofs.Event.Overrides
import Logline.Proofs.Event.Plain
import Logline.Proofs.Event.RoundTrip
import Logline.Proofs.Filter.Overlooked
import Logline.Proofs.Filter.Severity
import Logline.Proofs.Json.Exact
import Logline.Proofs.Json.Grammar
import Logline.Proofs.Json.OneLine
import Logline.Proofs.Json.Records
import Logline.Proofs.Json.RoundTrip
import Logline.Proofs.Json.Skipping
import Logline.Proofs.Json.Steps
import Logline.Proofs.Json.Tokens
import Logline.Proofs.Number.Integers
import Logline.Proofs.Pattern.Balance
import Logline.Proofs.Pattern.Brackets
import Logline.Proofs.Pattern.Completeness
import Logline.Proofs.Pattern.Faults
import Logline.Proofs.Pattern.Inside
import Logline.Proofs.Pattern.Merged
import Logline.Proofs.Pattern.Nesting
import Logline.Proofs.Pattern.Reads
import Logline.Proofs.Pattern.RoundTrip
import Logline.Proofs.Pattern.Soundness
import Logline.Proofs.Pattern.Spelling
import Logline.Proofs.Pattern.Steps
import Logline.Proofs.Queue.Contents
import Logline.Proofs.Queue.Fifo
import Logline.Proofs.Text.Digits
import Logline.Proofs.Text.OneLine
import Logline.Proofs.Text.Utf8
import Logline.Proofs.Time.ByExample
import Logline.Proofs.Time.Calendar
import Logline.Proofs.Time.Formats
import Logline.Proofs.Time.OneLine
import Logline.Proofs.Time.Rfc3339
import Logline.Proofs.Time.Visible
import Logline.Proofs.Time.Years
import Logline.Queue.Ring
import Logline.Sink.Basic
import Logline.Sink.Console
import Logline.Sink.File
import Logline.Sink.Samples
import Logline.Text.Basic
import Logline.Text.Blank
import Logline.Text.Hidden
import Logline.Text.Inspect
import Logline.Text.Quoted
import Logline.Text.Uppercase
import Logline.Text.Utf8
import Logline.Time.Calendar
import Logline.Time.Directive
import Logline.Time.Duration
import Logline.Time.Layout
import Logline.Time.Rfc3339
import Logline.Time.Timestamp
