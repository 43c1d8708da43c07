import EventTrace.Builder.Adder
import EventTrace.Builder.Call
import EventTrace.Builder.InPlace
import EventTrace.Builder.Machine
import EventTrace.CommandLine.FileTree
import EventTrace.CommandLine.Run
import EventTrace.Field.Machine
import EventTrace.Filter
import EventTrace.Hexdump.Machine
import EventTrace.Hexdump.Reader
import EventTrace.Layout.Builder
import EventTrace.Layout.Call
import EventTrace.Layout.Index
import EventTrace.Layout.Store
import EventTrace.Main
import EventTrace.Predicate.Machine
import EventTrace.Proofs.Builder.Additions
import EventTrace.Proofs.Builder.Derived
import EventTrace.Proofs.Builder.Encode
import EventTrace.Proofs.Builder.Gap
import EventTrace.Proofs.Builder.InPlace
import EventTrace.Proofs.Builder.Incomplete
import EventTrace.Proofs.Builder.Machine
import EventTrace.Proofs.Builder.Reachable
import EventTrace.Proofs.Builder.Refusal
import EventTrace.Proofs.Builder.Renewal
import EventTrace.Proofs.Builder.RoundTrip
import EventTrace.Proofs.Builder.Stack
import EventTrace.Proofs.Builder.Steps
import EventTrace.Proofs.Builder.Verdict
import EventTrace.Proofs.CommandLine.Build
import EventTrace.Proofs.CommandLine.Fidelity
import EventTrace.Proofs.Decimal.Whole
import EventTrace.Proofs.Field.Access
import EventTrace.Proofs.Field.Literal
import EventTrace.Proofs.Field.Scalar
import EventTrace.Proofs.Filter
import EventTrace.Proofs.Guid.Format
import EventTrace.Proofs.Guid.Words
import EventTrace.Proofs.Hexdump.Dump
import EventTrace.Proofs.Hexdump.Machine
import EventTrace.Proofs.Hexdump.Row
import EventTrace.Proofs.Layout.Faults
import EventTrace.Proofs.Layout.Index
import EventTrace.Proofs.Layout.Manifest
import EventTrace.Proofs.Layout.Store
import EventTrace.Proofs.Layout.WellFormed
import EventTrace.Proofs.Predicate.Laws
import EventTrace.Proofs.Predicate.Meaning
import EventTrace.Proofs.Predicate.Text
import EventTrace.Proofs.Predicate.Unresolved
import EventTrace.Proofs.Reading.Bounds
import EventTrace.Proofs.Reading.CutOff
import EventTrace.Proofs.Reading.Dependence
import EventTrace.Proofs.Reading.Extraction
import EventTrace.Proofs.Reading.Grammar
import EventTrace.Proofs.Reading.Leniency
import EventTrace.Proofs.Reading.Locate
import EventTrace.Proofs.Reading.Machine
import EventTrace.Proofs.Reading.Outcome
import EventTrace.Proofs.Reading.Paths
import EventTrace.Proofs.Reading.Shortage
import EventTrace.Proofs.Reading.Unicode
import EventTrace.Proofs.Reading.Walk
import EventTrace.Proofs.Record.Document
import EventTrace.Proofs.Record.StackTrace
import EventTrace.Proofs.Text.Codec
import EventTrace.Proofs.Text.Hex
import EventTrace.Proofs.Text.Utf16
import EventTrace.Proofs.Text.Utf8
import EventTrace.Proofs.Time.FileTime
import EventTrace.Word
