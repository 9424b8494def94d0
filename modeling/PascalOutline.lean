import PascalOutline.ByteReader
import PascalOutline.Command.Arguments
import PascalOutline.Command.Session
import PascalOutline.Comment
import PascalOutline.Comment.Clean
import PascalOutline.Comment.Doc
import PascalOutline.Cursor
import PascalOutline.Diagnostic
import PascalOutline.Draft
import PascalOutline.Entry
import PascalOutline.Event
import PascalOutline.FileTree
import PascalOutline.Format
import PascalOutline.FrontEnd
import PascalOutline.Glob
import PascalOutline.Header
import PascalOutline.Keyword
import PascalOutline.Lexeme
import PascalOutline.Lexeme.Lexer
import PascalOutline.Location
import PascalOutline.Main
import PascalOutline.Options
import PascalOutline.Outline
import PascalOutline.Outline.Builder
import PascalOutline.Path
import PascalOutline.Proofs.ArgumentOrder
import PascalOutline.Proofs.Bounds
import PascalOutline.Proofs.Bounds.Draft
import PascalOutline.Proofs.Bounds.Lexer
import PascalOutline.Proofs.Bounds.Reader
import PascalOutline.Proofs.Bounds.Text
import PascalOutline.Proofs.CleanDocumentation
import PascalOutline.Proofs.Command
import PascalOutline.Proofs.Comment.Clean
import PascalOutline.Proofs.CommentNesting
import PascalOutline.Proofs.Correspondence.Cursor
import PascalOutline.Proofs.Correspondence.Draft
import PascalOutline.Proofs.Correspondence.Outline
import PascalOutline.Proofs.Correspondence.Recognizer
import PascalOutline.Proofs.Correspondence.Respelling
import PascalOutline.Proofs.Correspondence.Scan
import PascalOutline.Proofs.Correspondence.Token
import PascalOutline.Proofs.Cursor.CutShort
import PascalOutline.Proofs.Cursor.Fork
import PascalOutline.Proofs.Cursor.Index
import PascalOutline.Proofs.Cursor.Movement
import PascalOutline.Proofs.Cursor.NamePlace
import PascalOutline.Proofs.Cursor.Order
import PascalOutline.Proofs.DocOptions
import PascalOutline.Proofs.Documentation
import PascalOutline.Proofs.Documentation.Account
import PascalOutline.Proofs.Documentation.Attendance
import PascalOutline.Proofs.Documentation.Claims
import PascalOutline.Proofs.Documentation.Draft
import PascalOutline.Proofs.Documentation.Fork
import PascalOutline.Proofs.Documentation.Gap
import PascalOutline.Proofs.Documentation.Heading
import PascalOutline.Proofs.Documentation.Ledger
import PascalOutline.Proofs.Documentation.Order
import PascalOutline.Proofs.Documentation.Register
import PascalOutline.Proofs.Documentation.Strung
import PascalOutline.Proofs.Documentation.Trailing
import PascalOutline.Proofs.DocumentationDelivery
import PascalOutline.Proofs.DocumentationOrder
import PascalOutline.Proofs.Draft
import PascalOutline.Proofs.FileTree
import PascalOutline.Proofs.FinalEnd
import PascalOutline.Proofs.GapLimit
import PascalOutline.Proofs.HeaderExtent
import PascalOutline.Proofs.HeaderParts
import PascalOutline.Proofs.Kinds
import PascalOutline.Proofs.Layout
import PascalOutline.Proofs.LetterCase
import PascalOutline.Proofs.Lexeme.Cut
import PascalOutline.Proofs.Lexeme.Extent
import PascalOutline.Proofs.Lexeme.LineBreak
import PascalOutline.Proofs.Lexeme.Local
import PascalOutline.Proofs.Lexeme.Modes
import PascalOutline.Proofs.Lexeme.Respelling
import PascalOutline.Proofs.Lexeme.Tiling
import PascalOutline.Proofs.LexicalErrors
import PascalOutline.Proofs.LineEndings
import PascalOutline.Proofs.Listing
import PascalOutline.Proofs.Locations
import PascalOutline.Proofs.MissingNames
import PascalOutline.Proofs.NamePaths
import PascalOutline.Proofs.Nesting
import PascalOutline.Proofs.Nesting.Grammar
import PascalOutline.Proofs.Nesting.Reading
import PascalOutline.Proofs.Nesting.Steps
import PascalOutline.Proofs.OpaqueRegions
import PascalOutline.Proofs.Outline.Arena
import PascalOutline.Proofs.Outline.Bare
import PascalOutline.Proofs.Outline.Closed
import PascalOutline.Proofs.Outline.Closing
import PascalOutline.Proofs.Outline.Grows
import PascalOutline.Proofs.Outline.Handles
import PascalOutline.Proofs.Outline.Operations
import PascalOutline.Proofs.Outline.Preorder
import PascalOutline.Proofs.Outline.Profile
import PascalOutline.Proofs.Outline.Spans
import PascalOutline.Proofs.Outline.Title
import PascalOutline.Proofs.Outline.Tree
import PascalOutline.Proofs.Outline.Walk
import PascalOutline.Proofs.OutputFiles
import PascalOutline.Proofs.Path
import PascalOutline.Proofs.Path.Order
import PascalOutline.Proofs.Place
import PascalOutline.Proofs.Prototype
import PascalOutline.Proofs.Recognizer.Acts
import PascalOutline.Proofs.Recognizer.Alike
import PascalOutline.Proofs.Recognizer.Blocks
import PascalOutline.Proofs.Recognizer.Declaration
import PascalOutline.Proofs.Recognizer.Deeds
import PascalOutline.Proofs.Recognizer.Final
import PascalOutline.Proofs.Recognizer.Fork
import PascalOutline.Proofs.Recognizer.ForkStep
import PascalOutline.Proofs.Recognizer.Lockstep
import PascalOutline.Proofs.Recognizer.Naming
import PascalOutline.Proofs.Recognizer.Run
import PascalOutline.Proofs.Recognizer.Step
import PascalOutline.Proofs.Recognizer.Tracking
import PascalOutline.Proofs.Recognizer.Unbroken
import PascalOutline.Proofs.Recovery
import PascalOutline.Proofs.Render.JsonText
import PascalOutline.Proofs.Rendering
import PascalOutline.Proofs.RoutineBody
import PascalOutline.Proofs.Scan
import PascalOutline.Proofs.StructuredOutput
import PascalOutline.Proofs.Text.Bytes
import PascalOutline.Proofs.Text.Case
import PascalOutline.Proofs.Text.Respelling
import PascalOutline.Proofs.Text.Tidy
import PascalOutline.Proofs.Token.Alike
import PascalOutline.Proofs.Token.Balance
import PascalOutline.Proofs.Token.Render
import PascalOutline.Proofs.Token.Spares
import PascalOutline.Proofs.Token.Unbroken
import PascalOutline.Proofs.TrailingComments
import PascalOutline.Proofs.Wording
import PascalOutline.Proofs.WrongClosers
import PascalOutline.Prototype
import PascalOutline.Recognizer.Declaration
import PascalOutline.Recognizer.Run
import PascalOutline.Recognizer.State
import PascalOutline.Recognizer.Step
import PascalOutline.Render.JsonText
import PascalOutline.Render.Listing
import PascalOutline.Render.Structured
import PascalOutline.Scan
import PascalOutline.Text.Blank
import PascalOutline.Text.Case
import PascalOutline.Text.Lines
import PascalOutline.Text.Printable
import PascalOutline.Text.Quoted
import PascalOutline.Token
import PascalOutline.Token.Clause
import PascalOutline.Token.Extent
