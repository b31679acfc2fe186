import TreeQuery.Query
import TreeQuery.Tree.Inspect
import TreeQuery.Proofs.Collection
import TreeQuery.Proofs.Text.Ascii
import TreeQuery.Proofs.Text.Decimal
import TreeQuery.Proofs.Text.Lowercase
import TreeQuery.Proofs.Reading.Value
import TreeQuery.Proofs.Selector.Formula
import TreeQuery.Proofs.Reading.Token
import TreeQuery.Proofs.Reading.Shape
import TreeQuery.Proofs.Selector.Parts
import TreeQuery.Proofs.Reading.Legible
import TreeQuery.Proofs.Reading.Attribute
import TreeQuery.Proofs.Reading.PseudoClass
import TreeQuery.Proofs.Reading.Part
import TreeQuery.Proofs.Reading.Chain
import TreeQuery.Proofs.Rendering
import TreeQuery.Proofs.Reading.Append
import TreeQuery.Proofs.Index
import TreeQuery.Proofs.Selector.Route
import TreeQuery.Proofs.Tree.Detached
import TreeQuery.Proofs.Selector.Detached
import TreeQuery.Proofs.Reading.Shift
import TreeQuery.Proofs.Reading.Window
import TreeQuery.Proofs.Reading.Locality
import TreeQuery.Proofs.Reading.Composition
import TreeQuery.Proofs.Reading.Quote
import TreeQuery.Proofs.Reading.Enclose
import TreeQuery.Proofs.Reading.Report
import TreeQuery.Proofs.Reading.Bounds
import TreeQuery.Proofs.Reading.Unclosed
import TreeQuery.Proofs.Reading.Trail
import TreeQuery.Proofs.Reading.Follow
import TreeQuery.Proofs.Reading.Trailing
import TreeQuery.Proofs.Reading.Balance
import TreeQuery.Proofs.Trimming
import TreeQuery.Proofs.Nesting
import TreeQuery.Proofs.Tree.Descent
import TreeQuery.Proofs.Descendants
import TreeQuery.Proofs.Reading.NormalForm
import TreeQuery.Proofs.Selector.AttributeTest
import TreeQuery.Proofs.Reading.Argument
import TreeQuery.Proofs.Reading.Origin
import TreeQuery.Proofs.Containment
import TreeQuery.Proofs.Text.Gap
import TreeQuery.Proofs.Selector.Progression
import TreeQuery.Proofs.Selector.Spelling
import TreeQuery.Proofs.Positions
import TreeQuery.Proofs.Candidates
import TreeQuery.Proofs.Selector.CasePolicy
import TreeQuery.Proofs.Reading.Literal
import TreeQuery.Proofs.Quotation
import TreeQuery.Proofs.Tree.Navigation
import TreeQuery.Proofs.Relaxation
import TreeQuery.Proofs.Relative
import TreeQuery.Proofs.Reading.Stride
import TreeQuery.Proofs.Reading.Closing
import TreeQuery.Proofs.Reading.Space
import TreeQuery.Proofs.Transparency
import TreeQuery.Proofs.Tree.Offers
import TreeQuery.Proofs.Text.Words
import TreeQuery.Proofs.Reading.Brackets
import TreeQuery.Proofs.Tree.StringValue
import TreeQuery.Proofs.WholeText
import TreeQuery.Proofs.Reading.Operation
import TreeQuery.Proofs.Tree.Name
import TreeQuery.Proofs.Qualification
