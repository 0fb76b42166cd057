import Flashdeck.Board.Basic
import Flashdeck.Board.Grid
import Flashdeck.Card.Appearance
import Flashdeck.Card.Basic
import Flashdeck.Card.Fields
import Flashdeck.Card.Placed
import Flashdeck.Card.Value
import Flashdeck.Command.Arguments
import Flashdeck.Command.Log
import Flashdeck.Command.Run
import Flashdeck.Deck
import Flashdeck.Fault
import Flashdeck.Json
import Flashdeck.Log
import Flashdeck.Main
import Flashdeck.Number.Coercion
import Flashdeck.Number.Decimal
import Flashdeck.Number.Format
import Flashdeck.Number.Shortest
import Flashdeck.Number.Word
import Flashdeck.Proofs.Block.Agreement
import Flashdeck.Proofs.Block.Balanced
import Flashdeck.Proofs.Block.Compat
import Flashdeck.Proofs.Block.Order
import Flashdeck.Proofs.Block.Writing
import Flashdeck.Proofs.Card
import Flashdeck.Proofs.Deck
import Flashdeck.Proofs.Draft
import Flashdeck.Proofs.EscapePolicy
import Flashdeck.Proofs.LineEnd
import Flashdeck.Proofs.Property
import Flashdeck.Proofs.Search
import Flashdeck.Proofs.Search.Parallel
import Flashdeck.Proofs.Text.Blank
import Flashdeck.Proofs.Text.Escape
import Flashdeck.Proofs.Text.Expression
import Flashdeck.Proofs.Text.LineEnd
import Flashdeck.Proofs.Token.Form
import Flashdeck.Proofs.Token.Location
import Flashdeck.Proofs.Token.Plain
import Flashdeck.Proofs.Token.Split
import Flashdeck.Script.Block
import Flashdeck.Script.Block.Balanced
import Flashdeck.Script.Block.Compat
import Flashdeck.Script.Cursor
import Flashdeck.Script.Lexeme
import Flashdeck.Script.Property
import Flashdeck.Script.Token
import Flashdeck.Search
import Flashdeck.Settings
import Flashdeck.Text.Class
import Flashdeck.Text.Escape
import Flashdeck.Text.Lines
import Flashdeck.Text.Trim
import Flashdeck.Text.Utf8
import Flashdeck.Proofs.Block.Place
import Flashdeck.Proofs.Token.Chain
import Flashdeck.Proofs.Block.Contained
import Flashdeck.Proofs.Listing
import Flashdeck.Proofs.Block.Wrapping
import Flashdeck.Proofs.Board
import Flashdeck.Proofs.Json.Denotes
import Flashdeck.Proofs.Json.Literal
import Flashdeck.Proofs.Block.Joining
import Flashdeck.Proofs.Number.Format
import Flashdeck.Proofs.Json.Objects
import Flashdeck.Proofs.Census
import Flashdeck.Proofs.Text.Utf8
import Flashdeck.Proofs.Bytes
import Flashdeck.Proofs.Text.Lines
import Flashdeck.Proofs.Text.Pairs
import Flashdeck.Proofs.EscapePairs
import Flashdeck.Proofs.Key
import Flashdeck.Proofs.Number.Decimal
import Flashdeck.Proofs.Text.Offset
import Flashdeck.Proofs.Text.Tidy
import Flashdeck.Proofs.Number.Coercion
import Flashdeck.Proofs.Numeral
import Flashdeck.Proofs.Number.Rounding
import Flashdeck.Proofs.Number.Interval
import Flashdeck.Proofs.Number.Parts
import Flashdeck.Proofs.Number.Bits
import Flashdeck.Proofs.Number.Scientific
import Flashdeck.Proofs.Number.Nearest
import Flashdeck.Proofs.Number.Marked
import Flashdeck.Proofs.Json.Unique
import Flashdeck.Proofs.Report
import Flashdeck.Proofs.Number.Notation
import Flashdeck.Proofs.Number.ReadBack
import Flashdeck.Proofs.Json.Placed
import Flashdeck.Proofs.Fields
import Flashdeck.Proofs.Settings
import Flashdeck.Proofs.Command.Options
import Flashdeck.Proofs.Command.Log
import Flashdeck.Proofs.Command.Run
import Flashdeck.Proofs.Cursor.Place
import Flashdeck.Proofs.Cursor.Run
import Flashdeck.Proofs.Cursor.Step
import Flashdeck.Proofs.Checked.Loop
import Flashdeck.Proofs.Checked.Cut
import Flashdeck.Proofs.Checked.Token
import Flashdeck.Proofs.Checked.Escape
import Flashdeck.Proofs.Checked.Property
import Flashdeck.Proofs.Checked.Compat
import Flashdeck.Proofs.Checked.Balanced
import Flashdeck.Proofs.Checked.Program
