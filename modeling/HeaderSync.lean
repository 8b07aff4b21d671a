import HeaderSync.Body
import HeaderSync.Command.Run
import HeaderSync.Files.Store
import HeaderSync.Fragment
import HeaderSync.Json
import HeaderSync.LineDiff
import HeaderSync.Lines
import HeaderSync.Main
import HeaderSync.Merge.Completion
import HeaderSync.Merge.Header
import HeaderSync.Names
import HeaderSync.Pattern.Cache
import HeaderSync.Pattern.Matching
import HeaderSync.Proofs.Balanced
import HeaderSync.Proofs.Body
import HeaderSync.Proofs.Comparison
import HeaderSync.Proofs.Difference
import HeaderSync.Proofs.Edit.Acceptance
import HeaderSync.Proofs.Edit.Bytes
import HeaderSync.Proofs.Edit.Reading
import HeaderSync.Proofs.Files.Store
import HeaderSync.Proofs.Files.Update
import HeaderSync.Proofs.Fragment.Cells
import HeaderSync.Proofs.Fragment.Conservation
import HeaderSync.Proofs.Fragment.Coordinates
import HeaderSync.Proofs.Fragment.Cutting
import HeaderSync.Proofs.Fragment.Derived
import HeaderSync.Proofs.Fragment.Joining
import HeaderSync.Proofs.Fragment.Partition
import HeaderSync.Proofs.Fragment.Removal
import HeaderSync.Proofs.Fragment.Scratch
import HeaderSync.Proofs.Merge.Anchors
import HeaderSync.Proofs.Merge.Application
import HeaderSync.Proofs.Merge.Braces
import HeaderSync.Proofs.Merge.Completions
import HeaderSync.Proofs.Merge.Deepest
import HeaderSync.Proofs.Merge.Deletions
import HeaderSync.Proofs.Merge.Destructors
import HeaderSync.Proofs.Merge.ForeignText
import HeaderSync.Proofs.Merge.FreshSource
import HeaderSync.Proofs.Merge.HeaderEdits
import HeaderSync.Proofs.Merge.Insertions
import HeaderSync.Proofs.Merge.Reach
import HeaderSync.Proofs.Merge.Regions
import HeaderSync.Proofs.Merge.RoundTrip
import HeaderSync.Proofs.Merge.SecondSync
import HeaderSync.Proofs.Merge.SelfMerge
import HeaderSync.Proofs.Merge.Settled
import HeaderSync.Proofs.Merge.SourceEdits
import HeaderSync.Proofs.Names.Patterns
import HeaderSync.Proofs.Names.Requests
import HeaderSync.Proofs.Pattern.Cache
import HeaderSync.Proofs.Pattern.Grouping
import HeaderSync.Proofs.Pattern.Language
import HeaderSync.Proofs.Pattern.Matches
import HeaderSync.Proofs.Pattern.Notation
import HeaderSync.Proofs.Reader.Basic
import HeaderSync.Proofs.Reader.Bounds
import HeaderSync.Proofs.Reader.Checked
import HeaderSync.Proofs.Reader.Definitions
import HeaderSync.Proofs.Reader.Enclosure
import HeaderSync.Proofs.Reader.Failure
import HeaderSync.Proofs.Reader.Headings
import HeaderSync.Proofs.Reader.Interfaces
import HeaderSync.Proofs.Reader.KeptLabels
import HeaderSync.Proofs.Reader.Labels
import HeaderSync.Proofs.Reader.Nesting
import HeaderSync.Proofs.Reader.Notations
import HeaderSync.Proofs.Reader.Placed
import HeaderSync.Proofs.Reader.PlainTree
import HeaderSync.Proofs.Reader.ReadBack
import HeaderSync.Proofs.Reader.Sections
import HeaderSync.Proofs.Reader.Siblings
import HeaderSync.Proofs.Reader.SourceItems
import HeaderSync.Proofs.Reader.Starts
import HeaderSync.Proofs.Reader.WrittenLines
import HeaderSync.Proofs.Reader.WrittenSource
import HeaderSync.Proofs.Scan
import HeaderSync.Proofs.Scan.Clock
import HeaderSync.Proofs.Scan.Consumption
import HeaderSync.Proofs.Scan.Coverage
import HeaderSync.Proofs.Scan.Pieces
import HeaderSync.Proofs.Signature.Arguments
import HeaderSync.Proofs.Signature.Braces
import HeaderSync.Proofs.Signature.Cuts
import HeaderSync.Proofs.Signature.Defaults
import HeaderSync.Proofs.Signature.Literals
import HeaderSync.Proofs.Signature.Operators
import HeaderSync.Proofs.Signature.Qualified
import HeaderSync.Proofs.Signature.Scopes
import HeaderSync.Proofs.Signature.Spellings
import HeaderSync.Proofs.Signature.TopLevel
import HeaderSync.Proofs.Span
import HeaderSync.Proofs.Span.Canonical
import HeaderSync.Proofs.Span.Coverage
import HeaderSync.Proofs.Span.Notation
import HeaderSync.Proofs.Text.Braces
import HeaderSync.Proofs.Text.Bytes
import HeaderSync.Proofs.Text.Numerals
import HeaderSync.Proofs.Text.Offsets
import HeaderSync.Proofs.Text.Separators
import HeaderSync.Proofs.Text.Trim
import HeaderSync.Proofs.Text.Words
import HeaderSync.Proofs.Tree.Blocks
import HeaderSync.Proofs.Tree.Braces
import HeaderSync.Proofs.Tree.Declared
import HeaderSync.Proofs.Tree.Induction
import HeaderSync.Proofs.Tree.Pairing
import HeaderSync.Proofs.Tree.Provenance
import HeaderSync.Proofs.Tree.Pruning
import HeaderSync.Proofs.Tree.Selection
import HeaderSync.Proofs.Tree.Shown
import HeaderSync.Reader.Header
import HeaderSync.Reader.Source
import HeaderSync.Settings
import HeaderSync.Signature
import HeaderSync.Text.Basic
import HeaderSync.Text.Blank
import HeaderSync.Text.Hidden
import HeaderSync.Text.Letter
import HeaderSync.Text.Quoted
import HeaderSync.Text.Ranges
import HeaderSync.Tree.Naming
import HeaderSync.Tree.Outline
import HeaderSync.Tree.Render
