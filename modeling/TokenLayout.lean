import TokenLayout.Datum
import TokenLayout.Text.Printable
import TokenLayout.Text.Quoted
import TokenLayout.Text.Pieces
import TokenLayout.Fault
import TokenLayout.Settings
import TokenLayout.LogChannel
import TokenLayout.Catalogue
import TokenLayout.Page
import TokenLayout.Memo
import TokenLayout.Token.Basic
import TokenLayout.Token.Walk
import TokenLayout.Token.Measure
import TokenLayout.Token.Flat
import TokenLayout.Token.Printer
import TokenLayout.Token.Report
import TokenLayout.Token.Layout
import TokenLayout.Token.Render
import TokenLayout.Attempt
import TokenLayout.Store.Basic
import TokenLayout.Store.Construct
import TokenLayout.Store.Expression
import TokenLayout.Store.Measure
import TokenLayout.Store.Property
import TokenLayout.Recipe
import TokenLayout.Script
import TokenLayout.PageScript
import TokenLayout.Inspection
import TokenLayout.Proofs.FlatText
import TokenLayout.Proofs.Filling
import TokenLayout.Proofs.Planning
import TokenLayout.Proofs.Evolution
import TokenLayout.Proofs.Construction
import TokenLayout.Proofs.Sessions
import TokenLayout.Proofs.Faithful
import TokenLayout.Proofs.Strokes
import TokenLayout.Proofs.TrailingBreak
import TokenLayout.Proofs.Breaks
import TokenLayout.Proofs.Decided
import TokenLayout.Proofs.Scoping
import TokenLayout.Proofs.Influence
import TokenLayout.Proofs.PageHistory
import TokenLayout.Proofs.Refusals
import TokenLayout.Proofs.Quoting
import TokenLayout.Proofs.Descriptions
import TokenLayout.Proofs.Expressions
import TokenLayout.Proofs.Alignment
import TokenLayout.Proofs.Depth
import TokenLayout.Proofs.Growth
import TokenLayout.Proofs.OneLine
import TokenLayout.Proofs.Shifting
import TokenLayout.Proofs.ReadBack
import TokenLayout.Proofs.Accounting
import TokenLayout.Proofs.Bearing
import TokenLayout.Proofs.ListLayouts
import TokenLayout.Proofs.BottomUp
import TokenLayout.Proofs.Validation
import TokenLayout.Proofs.Locality
