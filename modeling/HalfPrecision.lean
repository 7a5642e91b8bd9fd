import HalfPrecision.Layout
import HalfPrecision.Layout.Fields
import HalfPrecision.Layout.Value
import HalfPrecision.Layout.Validation
import HalfPrecision.Layout.Capacity
import HalfPrecision.Conversion
import HalfPrecision.Decimal
import HalfPrecision.Text.Quoted
import HalfPrecision.Inspect.Display
import HalfPrecision.CommandLine.Inspection
import HalfPrecision.Log
import HalfPrecision.Platform
import HalfPrecision.Memory
import HalfPrecision.Memory.Buffer
import HalfPrecision.Memory.Words
import HalfPrecision.Batch
import HalfPrecision.Grid
import HalfPrecision.Batch.Arrays
import HalfPrecision.Platform.Host
import HalfPrecision.Platform.SharedCell
import HalfPrecision.Batch.Interleaving
import HalfPrecision.Main
import HalfPrecision.Proofs.Layout.Magnitude
import HalfPrecision.Proofs.Layout.Midpoint
import HalfPrecision.Proofs.Layout.Order
import HalfPrecision.Proofs.Conversion.Narrowing
import HalfPrecision.Proofs.Conversion.Widening
import HalfPrecision.Proofs.Conversion.RoundTrip
import HalfPrecision.Proofs.Batch.Snapshot
import HalfPrecision.Proofs.Batch.Call
import HalfPrecision.Batch.Guarded
import HalfPrecision.Proofs.Memory.Operand
import HalfPrecision.Proofs.Memory.View
import HalfPrecision.Proofs.Batch.Guarded
import HalfPrecision.Proofs.Batch.Splitting
import HalfPrecision.Proofs.Memory.WordPair
import HalfPrecision.Proofs.Batch.WordOrder
import HalfPrecision.Proofs.Grid.Shape
import HalfPrecision.Proofs.Grid.Index
import HalfPrecision.Proofs.Grid.Reversal
import HalfPrecision.Proofs.Batch.Cells
import HalfPrecision.Proofs.Batch.Arrays
import HalfPrecision.Proofs.Platform.SharedCell
import HalfPrecision.Proofs.Batch.Confined
import HalfPrecision.Proofs.Batch.Interleaving
import HalfPrecision.Proofs.Conversion.Flushing
import HalfPrecision.Proofs.Conversion.Detour
import HalfPrecision.Proofs.Conversion.Magnitude
import HalfPrecision.Proofs.Conversion.Threshold
import HalfPrecision.Proofs.Conversion.Monotone
import HalfPrecision.Proofs.Conversion.RoundingTwice
import HalfPrecision.Proofs.Conversion.WideningTwice
import HalfPrecision.Proofs.Inspect.Entry
import HalfPrecision.Proofs.Inspect.Description
import HalfPrecision.Proofs.CommandLine.Ending
import HalfPrecision.Proofs.CommandLine.DoubleDash
import HalfPrecision.Proofs.CommandLine.Output
import HalfPrecision.Proofs.Platform.Host
import HalfPrecision.Proofs.Platform.Script
import HalfPrecision.Proofs.Fraction
import HalfPrecision.Proofs.Layout.Nearest
import HalfPrecision.Proofs.Conversion.Nearest
import HalfPrecision.Proofs.Conversion.EvenFirst
import HalfPrecision.Proofs.Batch.ViaSingles
import HalfPrecision.Proofs.Text.Span
import HalfPrecision.Proofs.Text.DigitRow
import HalfPrecision.Proofs.Decimal.Grammar
import HalfPrecision.Proofs.Decimal.Nearest
import HalfPrecision.Proofs.Inspect.Consistency
import HalfPrecision.Proofs.Inspect.DecimalEntry
import HalfPrecision.Proofs.Inspect.PatternEntry
import HalfPrecision.Proofs.Conversion.Decoding
import HalfPrecision.Proofs.Decimal.Significant
import HalfPrecision.Proofs.Decimal.Notation
import HalfPrecision.Proofs.Decimal.SixDigits
import HalfPrecision.Proofs.Inspect.Reentry
import HalfPrecision.Proofs.Text.IntegerText
import HalfPrecision.Proofs.Text.IntegerReading
import HalfPrecision.Proofs.Layout.Validation
import HalfPrecision.Proofs.Layout.Masks
import HalfPrecision.Proofs.Capacity
import HalfPrecision.Proofs.Text.PaddedNumeral
import HalfPrecision.Proofs.Inspect.HexOrder
import HalfPrecision.Proofs.Inspect.FieldGroups
import HalfPrecision.Proofs.Conversion.Doubling
import HalfPrecision.Proofs.Conversion.Normalising
import HalfPrecision.Proofs.Layout.Classes

