import JsonBind.Table.Schema
import JsonBind.Count.Response
import JsonBind.Proofs.Builder.Coherence
import JsonBind.Proofs.Builder.Call
import JsonBind.Proofs.Builder.Sentence
import JsonBind.Proofs.Builder.Run
import JsonBind.Proofs.Outcome
import JsonBind.Proofs.Table.Columns
import JsonBind.Proofs.Table.Conversion
import JsonBind.Proofs.Table.Reading
import JsonBind.Proofs.Reader.Blank
import JsonBind.Proofs.Reader.Number
import JsonBind.Proofs.Reader.Text
import JsonBind.Proofs.Reader.Closed
import JsonBind.Proofs.Reader.Container
import JsonBind.Proofs.Reader.Scalar
import JsonBind.Proofs.Reader.Tree
import JsonBind.Proofs.Reader.Source
import JsonBind.Proofs.Except
import JsonBind.Proofs.Struct.Written
import JsonBind.Proofs.Count.Tree
import JsonBind.Proofs.Builder.Array
import JsonBind.Proofs.Count.Writing
import JsonBind.Proofs.Count.RoundTrip
import JsonBind.Proofs.Struct.Slot
import JsonBind.Proofs.Struct.Table
import JsonBind.Proofs.Count.Agreement
import JsonBind.Count.Text
import JsonBind.Proofs.Builder.RoundTrip
import JsonBind.Proofs.Sink
import JsonBind.Proofs.Count.Documents
import JsonBind.Proofs.Reader.Taken
import JsonBind.Proofs.Scan.Yields
import JsonBind.Proofs.Reader.Turns
import JsonBind.Proofs.Reader.Written
import JsonBind.Proofs.Count.Streaming
import JsonBind.Proofs.Builder.Completion
import JsonBind.Proofs.Builder.Piecewise
import JsonBind.Proofs.Table.Order
import JsonBind.Proofs.Table.Leniency
import JsonBind.Proofs.Text.Long
import JsonBind.Proofs.Table.Variation
import JsonBind.Proofs.Table.Canonical
import JsonBind.Proofs.Count.Variation
import JsonBind.Proofs.Count.Canonical
import JsonBind.Proofs.Count.Body
import JsonBind.Proofs.Reader.Levels
import JsonBind.Proofs.Count.Placing
import JsonBind.Proofs.Builder.Balance
import JsonBind.Proofs.Count.Positional
import JsonBind.Proofs.Document.Depth
import JsonBind.Proofs.Table.Path
import JsonBind.Proofs.Reader.Cut
import JsonBind.Proofs.Document.Stream
import JsonBind.Proofs.Reader.Honest
import JsonBind.Proofs.Document.Sources
import JsonBind.Proofs.Builder.Limited
import JsonBind.Proofs.Table.Events
import JsonBind.Proofs.Count.Events
import JsonBind.Proofs.Table.Context
import JsonBind.Proofs.Builder.Client
import JsonBind.Proofs.Table.Items
