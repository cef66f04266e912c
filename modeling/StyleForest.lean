import StyleForest.Machine.Model
import StyleForest.Machine.System
import StyleForest.Main
import StyleForest.Proofs.Compatibility
import StyleForest.Proofs.Consistency
import StyleForest.Proofs.Placement
import StyleForest.Proofs.Immutability
import StyleForest.Proofs.Merging
import StyleForest.Proofs.Grouping
import StyleForest.Proofs.Lineage
import StyleForest.Proofs.Acceptance
import StyleForest.Proofs.BlockOrder
import StyleForest.Proofs.Descent
import StyleForest.Proofs.SelectorText
import StyleForest.Proofs.SelectorSharing
import StyleForest.Proofs.ForestTable
import StyleForest.Proofs.Copying
import StyleForest.Proofs.Simulation
import StyleForest.Proofs.Footprint
import StyleForest.Proofs.Growth
import StyleForest.Proofs.Reordering
import StyleForest.Proofs.Condensing
import StyleForest.Proofs.Splitting
import StyleForest.Proofs.Sessions
import StyleForest.Proofs.Lexemes
import StyleForest.Proofs.Spelling
import StyleForest.Proofs.Gaps
import StyleForest.Proofs.Steps
import StyleForest.Proofs.Grammar
import StyleForest.Proofs.LowerCase
import StyleForest.Proofs.Readable
import StyleForest.Proofs.RoundTrip
import StyleForest.Proofs.Provenance
import StyleForest.Proofs.Braces
import StyleForest.Proofs.FiledBlocks
import StyleForest.Proofs.StylesheetBraces
import StyleForest.Proofs.ElementProperties
import StyleForest.Proofs.PathOrder
import StyleForest.Proofs.Editing
import StyleForest.Proofs.Failures
import StyleForest.Proofs.ElementCase
import StyleForest.Proofs.Verdict
import StyleForest.Proofs.MediaQuery
import StyleForest.Proofs.WrittenRules
import StyleForest.Proofs.Loading
import StyleForest.Proofs.WrittenFiles
import StyleForest.Proofs.RunOutcome
import StyleForest.Proofs.Calls
import StyleForest.Proofs.Joining
import StyleForest.Proofs.Respacing
import StyleForest.Proofs.PropertyNames
import StyleForest.Proofs.RepeatedMerging
import StyleForest.Proofs.ConflictReport
import StyleForest.Proofs.CrossingShorthands
import StyleForest.Proofs.ViewportWidths
import StyleForest.Proofs.LastValues
import StyleForest.Proofs.CommandLines
import StyleForest.Proofs.SourceFrames
import StyleForest.Proofs.AttributePairs
import StyleForest.Proofs.ByteOrder
import StyleForest.Proofs.LoadFailures
import StyleForest.Proofs.InsertionOrder
