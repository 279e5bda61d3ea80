import QpReferee.Decimal.Style
import QpReferee.Vec
import QpReferee.Problem
import QpReferee.Kkt.Check
import QpReferee.Status.Native
import QpReferee.Text.Pad
import QpReferee.Settings.File
import QpReferee.JsonText.Named
import QpReferee.Timing.Stopwatches
import QpReferee.Print.Target
import QpReferee.Adapter
import QpReferee.Engine.Conic
import QpReferee.Proofs.Checked
import QpReferee.Proofs.Sparse.Format
import QpReferee.Proofs.Sparse.Product
import QpReferee.Proofs.Exact
import QpReferee.Proofs.Sparse.Dense
import QpReferee.Proofs.Sparse.General
import QpReferee.Proofs.Kkt.Total
import QpReferee.Proofs.Conditions
import QpReferee.Proofs.Kkt.Reference
import QpReferee.Proofs.Kkt.Certificate
import QpReferee.Proofs.Kkt.Gap
import QpReferee.Proofs.Adapter.Answers
import QpReferee.Proofs.Adapter.Run
import QpReferee.Proofs.Adapter.Panics
import QpReferee.Proofs.Adapter.Verified
import QpReferee.Proofs.Problem.Construction
import QpReferee.Proofs.Decimal.Nearest
import QpReferee.Proofs.Decimal.Value
import QpReferee.Proofs.Decimal.Digits
import QpReferee.Proofs.JsonText.Numerals
import QpReferee.Proofs.JsonText.Written
import QpReferee.Proofs.JsonText.Floats
import QpReferee.Proofs.JsonText.Strings
import QpReferee.Proofs.JsonText.Cut
import QpReferee.Proofs.JsonText.Grammar
import QpReferee.Proofs.JsonText.Meaning
import QpReferee.Proofs.JsonText.Parsed
import QpReferee.Proofs.JsonText.Contract
import QpReferee.Proofs.Settings.Document
import QpReferee.Proofs.Settings.File
import QpReferee.Proofs.Settings.Cut
import QpReferee.Proofs.Settings.Members
import QpReferee.Proofs.Settings.Edits
import QpReferee.Proofs.Ieee.Rounding
import QpReferee.Proofs.Ieee.Packing
import QpReferee.Proofs.Ieee.Operations
import QpReferee.Proofs.Ieee.Scalars
import QpReferee.Proofs.Numbers
import QpReferee.Proofs.Ieee.Vectors
import QpReferee.Proofs.Kkt.Accepted
import QpReferee.Proofs.Kkt.Overflow
import QpReferee.Proofs.Kkt.Spoiled
import QpReferee.Proofs.Ieee.Order
import QpReferee.Proofs.Sparse.Partition
import QpReferee.Proofs.Kkt.Tiers
import QpReferee.Proofs.Adapter.Records
import QpReferee.Proofs.Adapter.Stricter
import QpReferee.Proofs.Ieee.Error
import QpReferee.Proofs.Ieee.Doubles
import QpReferee.Proofs.Timing.Seconds
import QpReferee.Proofs.Adapter.Budget
import QpReferee.Proofs.Adapter.Diagnostics
import QpReferee.Proofs.Text.Utf8
import QpReferee.Proofs.Print.Transcript
import QpReferee.Proofs.Timing.Report
import QpReferee.Proofs.Adapter.Transcript
import QpReferee.Proofs.Adapter.Independence
import QpReferee.Proofs.Adapter.Buffer
import QpReferee.Proofs.Sparse.Faults
import QpReferee.Proofs.Sparse.Canonical
import QpReferee.Proofs.Problem.Blocks
import QpReferee.Proofs.Problem.Symmetric
import QpReferee.Proofs.Session
import QpReferee.Proofs.Storage.ByteFile
import QpReferee.Proofs.Settings.Overwrite
import QpReferee.Proofs.Settings.Builder
import QpReferee.Proofs.Timing.Intervals
import QpReferee.Proofs.Engine.Conic
import QpReferee.Proofs.Solver.Interior
import QpReferee.Proofs.Ieee.Special
import QpReferee.Proofs.Vec.Norm
import QpReferee.Proofs.Sparse.Special
import QpReferee.Proofs.Problem.Rows
import QpReferee.Proofs.Kkt.Cost
import QpReferee.Proofs.Text.Order
import QpReferee.Proofs.Timing.Duration
import QpReferee.Proofs.Timing.Lines
