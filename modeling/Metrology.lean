import Metrology.Text.Blank
import Metrology.Text.Cut
import Metrology.Text.Lowercase
import Metrology.Integer.Text
import Metrology.Integer.Width
import Metrology.Binary.Arithmetic
import Metrology.Binary.Order
import Metrology.Binary.Text
import Metrology.Magnitude.Text
import Metrology.Dimension.Basic
import Metrology.MeasureUnit.Composition
import Metrology.MeasureUnit.Json
import Metrology.Quantity.Arithmetic
import Metrology.Quantity.Json
import Metrology.Quantity.Reference
import Metrology.Json.Reader
import Metrology.Catalog.Verify
import Metrology.Document.Json
import Metrology.Systems.Standard
import Metrology.Proofs.Ratio.Basic
import Metrology.Proofs.Ratio.Power
import Metrology.Proofs.Outcome
import Metrology.Proofs.Integer.Checked
import Metrology.Proofs.Ratio.Gcd
import Metrology.Proofs.Magnitude.Exact
import Metrology.Proofs.Representation.Exact
import Metrology.Proofs.Dimension.Degree
import Metrology.Proofs.Ratio.CommonMeasure
import Metrology.Proofs.MeasureUnit.Common
import Metrology.Proofs.MeasureUnit.CommonDivisor
import Metrology.Proofs.Magnitude.PiMultiple
import Metrology.Proofs.Quantity.Conversion
import Metrology.Proofs.MeasureUnit.Composition
import Metrology.Proofs.Quantity.Expression
import Metrology.Proofs.Quantity.Meaning
import Metrology.Proofs.Quantity.Order
import Metrology.Proofs.Quantity.OwnUnit
import Metrology.Proofs.Quantity.IntegerArithmetic
import Metrology.Proofs.Dimension.Canonical
import Metrology.Proofs.Dimension.Merge
import Metrology.Proofs.Dimension.Division
import Metrology.Proofs.Dimension.Composition
import Metrology.Proofs.Dimension.Reordering
import Metrology.Proofs.Dimension.Formula
import Metrology.Proofs.Representation.Widening
import Metrology.Proofs.Quantity.Widening
import Metrology.Proofs.Catalog.Lookup
import Metrology.Proofs.Catalog.Entry
import Metrology.Proofs.Catalog.Run
import Metrology.Proofs.Catalog.Persistence
import Metrology.Proofs.MeasureUnit.Made
import Metrology.Proofs.Catalog.Consistency
import Metrology.Proofs.Magnitude.Number
import Metrology.Proofs.Dimension.Bridging
import Metrology.Proofs.MeasureUnit.Bridge
import Metrology.Proofs.Quantity.Cast
import Metrology.Proofs.Catalog.References
import Metrology.Proofs.Representation.Mismatch
import Metrology.Proofs.MeasureUnit.Mismatch
import Metrology.Proofs.Quantity.Mismatch
import Metrology.Proofs.Magnitude.Factor
import Metrology.Proofs.MeasureUnit.Tree
import Metrology.Proofs.Quantity.ComposedUnits
import Metrology.Proofs.MeasureUnit.Deduced
import Metrology.Proofs.Representation.Range
import Metrology.Proofs.Quantity.Addition
import Metrology.Proofs.Quantity.Lossless
import Metrology.Proofs.Ratio.Truncation
import Metrology.Proofs.Quantity.IntegerCast
import Metrology.Proofs.Dimension.Power
import Metrology.Proofs.Magnitude.Power
import Metrology.Proofs.Quantity.Power
import Metrology.Proofs.Dimension.Multiplication
import Metrology.Proofs.Dimension.Scaling
import Metrology.Proofs.Dimension.PowerLaws
import Metrology.Proofs.Dimension.NamedPowers
import Metrology.Proofs.Integer.Reading
import Metrology.Proofs.Ratio.RoundTrip
import Metrology.Proofs.Magnitude.RoundTrip
import Metrology.Proofs.Text.Trimming
import Metrology.Proofs.Ratio.Reading
import Metrology.Proofs.Ratio.Decimal
import Metrology.Proofs.Ratio.Chain
import Metrology.Proofs.Magnitude.Tilde
import Metrology.Proofs.Magnitude.Algebra
import Metrology.Proofs.Representation.Calculation
import Metrology.Proofs.Catalog.Keys
import Metrology.Proofs.Catalog.Listing
import Metrology.Proofs.Binary.Nearest
import Metrology.Proofs.Binary.Order
import Metrology.Proofs.Magnitude.Order
import Metrology.Proofs.Magnitude.Finite
import Metrology.Proofs.Magnitude.TextConstruction
import Metrology.Proofs.Catalog.FiniteUnits
import Metrology.Proofs.Catalog.Suggestions
import Metrology.Proofs.Json.Rearranged
import Metrology.Proofs.Document.RoundTrip
import Metrology.Proofs.Binary.NearestNumber
import Metrology.Proofs.Binary.DoubleRounding
