import PascalOutline.Entry
import PascalOutline.Lexeme

/-! # Diagnostics

  No source is refused. What a reader of the outline should know about is
  reported beside it: a comment closer of the wrong style, and a declaration
  without a name.
-/

namespace PascalOutline

/-- What is wrong with a source. -/
inductive Problem where
  /-- A closer of this style stands outside of any comment. -/
  | strayCloser (style : BlockStyle)
  /-- A comment of this style, opened on this line, has a closer of the other
      style. -/
  | wrongCloser (style : BlockStyle) (openedOn : Nat)
  /-- A declaration of this kind has no name. -/
  | missingName (kind : EntryKind)
deriving DecidableEq, Repr, Inhabited

namespace Problem

/-- The class of a problem in structured output. -/
def label : Problem → String
  | strayCloser _ | wrongCloser _ _ => "comment-style-mismatch"
  | missingName _ => "empty-name"

/-- A text between backquotes. -/
def backquoted (cs : List Char) : String :=
  "`" ++ String.ofList cs ++ "`"

/-- The wording of a problem. -/
def message : Problem → String
  | strayCloser style => "stray " ++ backquoted style.closer ++ " outside of a comment"
  | wrongCloser style openedOn =>
    "comment opened with " ++ backquoted style.opener ++ " at line " ++ toString openedOn
      ++ " is closed with " ++ backquoted style.other.closer
      ++ " instead of " ++ backquoted style.closer
  | missingName kind => kind.word ++ " declaration without a name"

end Problem

/-- A problem and where it was found. -/
structure Diagnostic where
  /-- What is wrong. -/
  problem : Problem
  /-- The line. -/
  line : Nat
  /-- The column. -/
  column : Nat
deriving DecidableEq, Repr, Inhabited

namespace Diagnostic

/-- A problem found at a location. -/
def at_ (problem : Problem) (place : Location) : Diagnostic :=
  ⟨problem, place.line, place.column⟩

/-- A diagnostic as a line of text. -/
def describe (d : Diagnostic) : String :=
  toString d.line ++ ":" ++ toString d.column ++ ": " ++ d.problem.message

/-- Whether a diagnostic stands at or before another one. -/
def atOrBefore (a b : Diagnostic) : Bool :=
  a.line < b.line || (a.line == b.line && a.column ≤ b.column)

/-- Where a block comment has a closer of the other style that no opener of
    that style is open for. -/
def wrongCloserAt? (l : Lexeme) (style : BlockStyle) (c : Comment) : Option Location :=
  (style.other.strayCloserAt c.body).map fun n => l.start.after (style.opener ++ c.body.take n)

/-- The problem with a comment. A closer of the other style matters when the
    real one never comes, or comes on a later line and so swallows the code in
    between. -/
def ofComment? (l : Lexeme) (c : Comment) : Option Diagnostic :=
  match c.style with
  | .line => none
  | .block style =>
    (wrongCloserAt? l style c).bind fun place =>
      if !c.closed || place.line < l.stop.line then
        some (at_ (.wrongCloser style l.start.line) place)
      else none

/-- The problem with a lexeme. -/
def ofLexeme? (l : Lexeme) : Option Diagnostic :=
  match l.kind with
  | .symbol =>
    if l.text.toList = BlockStyle.brace.closer then some (at_ (.strayCloser .brace) l.start)
    else if l.text.toList = BlockStyle.parenStar.closer then
      some (at_ (.strayCloser .parenStar) l.start)
    else none
  | .comment c | .directive c => ofComment? l c
  | _ => none

/-- The problems that show in single lexemes, in source order. -/
def ofLexemes (lexemes : List Lexeme) : List Diagnostic :=
  lexemes.filterMap ofLexeme?

end Diagnostic

end PascalOutline
