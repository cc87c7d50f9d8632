import StyleValue.Numeric.Fault
import StyleValue.Numeric.Double
import StyleValue.Numeric.Number
import StyleValue.Numeric.Arithmetic
import StyleValue.Numeric.Decimal
import StyleValue.Numeric.Written
import StyleValue.Numeric.Elementary
import StyleValue.Text.CodePoint
import StyleValue.Text.Filter
import StyleValue.Text.Casing
import StyleValue.Text.Lowercase
import StyleValue.Text.Printable
import StyleValue.Text.Quoted
import StyleValue.Lookahead
import StyleValue.Token.Basic
import StyleValue.Token.Numeral
import StyleValue.Token.Name
import StyleValue.Token.Quotation
import StyleValue.Token.Lexer
import StyleValue.Token.Stream
import StyleValue.Component.Basic
import StyleValue.Component.Reading
import StyleValue.Failure
import StyleValue.Outcome
import StyleValue.Component.Frame
import StyleValue.Component.Parser
import StyleValue.Component.Argument
import StyleValue.Context
import StyleValue.Quantity.Angle
import StyleValue.Quantity.Length
import StyleValue.Quantity.Position
import StyleValue.Quantity.Calc
import StyleValue.Color.Basic
import StyleValue.Color.Matrix
import StyleValue.Color.Transfer
import StyleValue.Color.Space
import StyleValue.Color.Perceptual
import StyleValue.Color.Channels
import StyleValue.Color.Named
import StyleValue.Color.Parser
import StyleValue.Gradient.Basic
import StyleValue.Gradient.Linear
import StyleValue.Gradient.Radial
import StyleValue.Gradient.Point
import StyleValue.Image
import StyleValue.Property.Value
import StyleValue.Property.Basic
import StyleValue.Session
import StyleValue.Proofs.Text.Filter
import StyleValue.Proofs.Text.Lowercase
import StyleValue.Proofs.Token.Comment
import StyleValue.Proofs.Token.Start
import StyleValue.Proofs.Token.Stream
import StyleValue.Proofs.Token.Coverage
import StyleValue.Proofs.Component.Flat
import StyleValue.Proofs.Component.Grouping
import StyleValue.Proofs.Component.Input
import StyleValue.Proofs.Component.Numbers
import StyleValue.Proofs.Color.Alpha
import StyleValue.Proofs.Component.Reporting
import StyleValue.Proofs.Component.RoundTrip
import StyleValue.Proofs.Token.Boundary.Name
import StyleValue.Proofs.Token.Boundary.Quotation
import StyleValue.Proofs.Token.Boundary.Numeral
import StyleValue.Proofs.Token.Boundary.Choice
import StyleValue.Proofs.Token.Boundary.Token
import StyleValue.Proofs.Token.Piece
import StyleValue.Proofs.Token.Separation
import StyleValue.Proofs.Token.Comma
import StyleValue.Proofs.Numeric.Significant
import StyleValue.Proofs.Numeric.Nearest
import StyleValue.Proofs.Token.Denotation
import StyleValue.Proofs.Token.Grammar
import StyleValue.Proofs.Token.Longest
import StyleValue.Proofs.Token.First
import StyleValue.Proofs.Token.Remainder
import StyleValue.Proofs.Token.FirstNumber
import StyleValue.Proofs.Token.FirstName
import StyleValue.Proofs.Token.Procedure.Cursor
import StyleValue.Proofs.Token.Procedure.Tokenize
import StyleValue.Proofs.Token.Procedure.Run
import StyleValue.Proofs.Token.Procedure.Name
import StyleValue.Proofs.Token.Procedure.Number
import StyleValue.Proofs.Token.Procedure.Quotation
import StyleValue.Proofs.Token.Procedure.Token
import StyleValue.Proofs.Token.Procedure.Total
import StyleValue.Proofs.Failure
import StyleValue.Proofs.Numeric.Rounding
import StyleValue.Proofs.Numeric.Accuracy
import StyleValue.Proofs.Numeric.Power
import StyleValue.Proofs.Numeric.Size
import StyleValue.Proofs.Quantity.Calc
import StyleValue.Proofs.Color.Written
import StyleValue.Proofs.Color.Formula
import StyleValue.Proofs.Color.Gamma
import StyleValue.Proofs.Color.Detour
import StyleValue.Proofs.Color.Bytes
import StyleValue.Proofs.Color.Origin
import StyleValue.Proofs.Component.Single
import StyleValue.Proofs.Component.Drawing
import StyleValue.Proofs.Component.Entry
import StyleValue.Proofs.Quantity.Moderate
import StyleValue.Proofs.Color.Failure
import StyleValue.Proofs.Property.Keyword
import StyleValue.Proofs.Outcome
import StyleValue.Proofs.Image.Reporting
import StyleValue.Proofs.Property.Background
import StyleValue.Proofs.Component.Unclosed
import StyleValue.Proofs.Property.Silence
import StyleValue.Proofs.Component.Argument
import StyleValue.Proofs.Property.Lenient
import StyleValue.Proofs.Token.OneToken
import StyleValue.Proofs.Token.Url
import StyleValue.Proofs.Token.Escape
import StyleValue.Proofs.Color.Shape
import StyleValue.Proofs.Gradient.Stops
import StyleValue.Proofs.Gradient.Direction
import StyleValue.Proofs.Gradient.Position
import StyleValue.Proofs.Gradient.Interleaving
import StyleValue.Proofs.Color.Opacity
import StyleValue.Proofs.Color.Unpacking
import StyleValue.Proofs.Color.Hex
import StyleValue.Proofs.Color.Hue
import StyleValue.Proofs.Property.PaintOrder
import StyleValue.Proofs.Component.Piecewise
import StyleValue.Proofs.Component.Buffer
import StyleValue.Proofs.Component.Descent
import StyleValue.Proofs.Text.Normalization
import StyleValue.Proofs.Lookahead
