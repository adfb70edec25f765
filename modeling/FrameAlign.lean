import FrameAlign.Archive.Basic
import FrameAlign.Archive.Name
import FrameAlign.Capture.Decode
import FrameAlign.Capture.Record
import FrameAlign.Capture.Sorting
import FrameAlign.Category
import FrameAlign.Category.Map
import FrameAlign.Command.CommandLine
import FrameAlign.Command.Load
import FrameAlign.Command.Options
import FrameAlign.Command.Program
import FrameAlign.Command.Summary
import FrameAlign.Decimal.Fixed
import FrameAlign.Decimal.Shortest
import FrameAlign.Diagnostic
import FrameAlign.Files.Output
import FrameAlign.Files.Path
import FrameAlign.Files.Store
import FrameAlign.Files.Tree
import FrameAlign.Frames.Bisect
import FrameAlign.Frames.Correlation
import FrameAlign.Frames.Link
import FrameAlign.Frames.Range
import FrameAlign.Frames.Relation
import FrameAlign.Frames.Table
import FrameAlign.Gzip.Bits
import FrameAlign.Gzip.Container
import FrameAlign.Gzip.Inflate
import FrameAlign.Gzip.Member
import FrameAlign.Gzip.PrefixCode
import FrameAlign.Json.Number
import FrameAlign.Json.Printer
import FrameAlign.Json.ReadError
import FrameAlign.Json.Token
import FrameAlign.Json.Tree
import FrameAlign.Json.Value
import FrameAlign.Loading.Importer
import FrameAlign.Loading.Progress
import FrameAlign.Loading.Report
import FrameAlign.Loading.Workspace
import FrameAlign.Main
import FrameAlign.Policy.Basic
import FrameAlign.Policy.Reader
import FrameAlign.Proofs.Archive.Extensions
import FrameAlign.Proofs.Archive.Layout
import FrameAlign.Proofs.Archive.Names
import FrameAlign.Proofs.Archive.Safety
import FrameAlign.Proofs.Archive.Shelves
import FrameAlign.Proofs.Capture.Acceptance
import FrameAlign.Proofs.Capture.Recordings
import FrameAlign.Proofs.Capture.Selection
import FrameAlign.Proofs.Category.Values
import FrameAlign.Proofs.Files.Confinement
import FrameAlign.Proofs.Files.Paths
import FrameAlign.Proofs.Files.Trees
import FrameAlign.Proofs.Frames.Bounds
import FrameAlign.Proofs.Frames.Hull
import FrameAlign.Proofs.Frames.Keys
import FrameAlign.Proofs.Frames.Links
import FrameAlign.Proofs.Frames.Matches
import FrameAlign.Proofs.Frames.Neighbours
import FrameAlign.Proofs.Frames.Numbering
import FrameAlign.Proofs.Frames.Order
import FrameAlign.Proofs.Frames.Reach
import FrameAlign.Proofs.Frames.Shift
import FrameAlign.Proofs.Frames.Views
import FrameAlign.Proofs.Gzip.Names
import FrameAlign.Proofs.Loading.Agreement
import FrameAlign.Proofs.Loading.Arrival
import FrameAlign.Proofs.Loading.Batches
import FrameAlign.Proofs.Loading.Dating
import FrameAlign.Proofs.Loading.Decoding
import FrameAlign.Proofs.Loading.Fruitless
import FrameAlign.Proofs.Loading.Hiding
import FrameAlign.Proofs.Loading.History
import FrameAlign.Proofs.Loading.Sessions
import FrameAlign.Proofs.Loading.Shown
import FrameAlign.Proofs.Policy.Gaps
import FrameAlign.Proofs.Registry.Backing
import FrameAlign.Proofs.Registry.Balance
import FrameAlign.Proofs.Registry.Batching
import FrameAlign.Proofs.Registry.Consistency
import FrameAlign.Proofs.Registry.Evidence
import FrameAlign.Proofs.Registry.History
import FrameAlign.Proofs.Registry.Idle
import FrameAlign.Proofs.Registry.Listing
import FrameAlign.Proofs.Registry.Offsets
import FrameAlign.Proofs.Registry.Overrides
import FrameAlign.Proofs.Registry.Places
import FrameAlign.Proofs.Registry.Precedence
import FrameAlign.Proofs.Registry.Rearrangement
import FrameAlign.Proofs.Registry.Reloading
import FrameAlign.Proofs.Registry.Retiming
import FrameAlign.Proofs.Registry.Screenshots
import FrameAlign.Proofs.Registry.Settled
import FrameAlign.Proofs.Registry.Steps
import FrameAlign.Proofs.Registry.Survivors
import FrameAlign.Proofs.Time.Durations
import FrameAlign.Registry.Basic
import FrameAlign.Registry.Merge
import FrameAlign.Registry.Policy
import FrameAlign.Text.GraphemeExtend
import FrameAlign.Text.Quoted
import FrameAlign.Text.Unprintable
import FrameAlign.Time.Calendar
import FrameAlign.Time.Duration
import FrameAlign.Time.Epoch
import FrameAlign.Time.Nanos
import FrameAlign.Time.Timestamp
import FrameAlign.Toml.Blank
import FrameAlign.Toml.Document
import FrameAlign.Toml.Number
import FrameAlign.Toml.Scanner
import FrameAlign.Toml.Text
import FrameAlign.Toml.Value
import FrameAlign.Trace.Basic
import FrameAlign.Trace.Collection
import FrameAlign.Trace.File
import FrameAlign.Trace.Rank
