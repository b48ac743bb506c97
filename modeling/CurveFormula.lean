import CurveFormula.Binary64.Basic
import CurveFormula.Binary64.Convert
import CurveFormula.Binary64.Kernel
import CurveFormula.Binary64.Text
import CurveFormula.Binding
import CurveFormula.Decimal.Digits
import CurveFormula.Decimal.Layout
import CurveFormula.Decimal.Literal
import CurveFormula.Expr.Basic
import CurveFormula.Expr.Build
import CurveFormula.Expr.Column
import CurveFormula.Expr.Equality
import CurveFormula.Expr.Eval
import CurveFormula.Expr.Kind
import CurveFormula.Expr.Plot
import CurveFormula.Expr.Render
import CurveFormula.Expr.Traversal
import CurveFormula.Form
import CurveFormula.Generator
import CurveFormula.Generator.Setup
import CurveFormula.Kernel
import CurveFormula.Latex
import CurveFormula.Letter
import CurveFormula.Log.Journal
import CurveFormula.Log.Level
import CurveFormula.Log.Message
import CurveFormula.Log.Report
import CurveFormula.Numerals
import CurveFormula.Operator
import CurveFormula.Params
import CurveFormula.Params.Draw
import CurveFormula.Parse.Bracket
import CurveFormula.Parse.Cut
import CurveFormula.Parse.Fault
import CurveFormula.Parse.Reader
import CurveFormula.Proofs.Absorption
import CurveFormula.Proofs.Agreement
import CurveFormula.Proofs.BadNames
import CurveFormula.Proofs.Bound
import CurveFormula.Proofs.BracketFaults
import CurveFormula.Proofs.Calls
import CurveFormula.Proofs.Cancelling
import CurveFormula.Proofs.Candidates
import CurveFormula.Proofs.Canon
import CurveFormula.Proofs.Chains
import CurveFormula.Proofs.Columns
import CurveFormula.Proofs.Cutting
import CurveFormula.Proofs.Deliveries
import CurveFormula.Proofs.Dialects
import CurveFormula.Proofs.Drawing
import CurveFormula.Proofs.Evaluation
import CurveFormula.Proofs.FieldRules
import CurveFormula.Proofs.Filling
import CurveFormula.Proofs.Forms
import CurveFormula.Proofs.Grammar
import CurveFormula.Proofs.Ground
import CurveFormula.Proofs.Growing
import CurveFormula.Proofs.Interchange
import CurveFormula.Proofs.LastWrites
import CurveFormula.Proofs.Leaves
import CurveFormula.Proofs.Matching
import CurveFormula.Proofs.Meaning
import CurveFormula.Proofs.Missing
import CurveFormula.Proofs.Names
import CurveFormula.Proofs.Nesting
import CurveFormula.Proofs.Pass
import CurveFormula.Proofs.Pieces
import CurveFormula.Proofs.PowerSums
import CurveFormula.Proofs.Reading
import CurveFormula.Proofs.Recording
import CurveFormula.Proofs.Refusals
import CurveFormula.Proofs.Residue
import CurveFormula.Proofs.Resting
import CurveFormula.Proofs.RoundTrip
import CurveFormula.Proofs.Script
import CurveFormula.Proofs.SeriesSums
import CurveFormula.Proofs.Shrinking
import CurveFormula.Proofs.Spelled
import CurveFormula.Proofs.Tokens
import CurveFormula.Proofs.TopLevel
import CurveFormula.Proofs.Traversals
import CurveFormula.Proofs.Whole
import CurveFormula.Random.Script
import CurveFormula.Random.Source
import CurveFormula.Random.Stream
import CurveFormula.Random.Twister
import CurveFormula.Simplify.Pass
import CurveFormula.Simplify.Rule
import CurveFormula.Text.Basic
import CurveFormula.Text.Blank
import CurveFormula.Text.Digit
import CurveFormula.Text.Printable
import CurveFormula.Text.Quoted
import CurveFormula.Weights
