import Calculator.CommandLine
import Calculator.Main
import Calculator.Proofs.Acceptance
import Calculator.Proofs.Groups
import Calculator.Proofs.Lines
import Calculator.Proofs.Transcript
import Calculator.Proofs.Resumption
import Calculator.Proofs.FullSink
import Calculator.Proofs.Spacing
import Calculator.Proofs.OneShot
import Calculator.Proofs.Nesting
import Calculator.Proofs.Accounting
import Calculator.Proofs.PendingOrder
import Calculator.Proofs.Literals
import Calculator.Proofs.Pieces
import Calculator.Proofs.Legibility
import Calculator.Proofs.FirstError
import Calculator.Proofs.PowerChains
import Calculator.Proofs.PostponedPowers
import Calculator.Proofs.Partition
import Calculator.Proofs.LongestMatch
import Calculator.Proofs.Releases
import Calculator.Proofs.RedundantGroups
import Calculator.Proofs.StructuralVerdict
import Calculator.Proofs.SingleLines
import Calculator.Proofs.NearestValue
import Calculator.Proofs.LiteralNumbers
import Calculator.Proofs.FewestDigits
import Calculator.Proofs.Layouts
import Calculator.Proofs.Arguments
import Calculator.Proofs.PrintedValues
