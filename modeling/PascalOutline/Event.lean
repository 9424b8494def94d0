import PascalOutline.Diagnostic
import PascalOutline.Text.Quoted

/-! # Log events

  What happened while a source was read or the command ran, beyond what the
  outline and its diagnostics say. Each event has a level and a line of text.
-/

namespace PascalOutline

/-- How important an event is. -/
inductive Level where
  /-- Worth showing always. -/
  | warn
  /-- Shows how a malformed source was mended. -/
  | debug
  /-- Shows every detail. -/
  | trace
deriving DecidableEq, Repr, Inhabited

namespace Level

/-- The word for a level in a log line. -/
def word : Level → String
  | warn => "WARN"
  | debug => "DEBUG"
  | trace => "TRACE"

/-- The number of `-v` flags from which on a level is shown. -/
def verbosity : Level → Nat
  | warn => 0
  | debug => 1
  | trace => 2

end Level

/-- Something worth a log line. -/
inductive Event where
  /-- A block comment ran into the end of the text. -/
  | commentCutOff (style : BlockStyle) (line : Nat)
  /-- A string ran into the end of its line. -/
  | stringCutOff (line : Nat)
  /-- An `end` closed a routine that has no body. -/
  | bodilessRoutine (line : Nat)
  /-- An `end` has nothing to close. -/
  | surplusEnd (line : Nat)
  /-- A word that begins a part of a module closed unfinished blocks. -/
  | blocksAbandoned (word : String) (count line : Nat)
  /-- A `begin` closed unfinished type declarations. -/
  | typesAbandoned (line : Nat)
  /-- The text ended inside declarations. -/
  | textEndedInside (count : Nat)
  /-- Entries were closed by the end of the text. -/
  | entriesLeftOpen (count : Nat)
  /-- Code followed a documentation comment that waited for a declaration. -/
  | documentationDropped (line : Nat)
  /-- A trailing comment has nothing before it. -/
  | trailerDropped (line : Nat)
  /-- A source was read. -/
  | sourceScanned (file : String) (lexemes entries diagnostics : Nat)
  /-- A file of the command was read. -/
  | fileScanned (file : String) (entries : Nat)
  /-- A file has a problem. -/
  | diagnosed (file : String) (diagnostic : Diagnostic)
  /-- A text that was given as a signature is none. -/
  | notASignature (text : String)
  /-- A file was left out because of its extension. -/
  | fileSkipped (path reason : String)
  /-- An argument names no file. -/
  | nothingMatched (pattern : String)
deriving DecidableEq, Repr, Inhabited

namespace Event

/-- How important an event is. -/
def level : Event → Level
  | documentationDropped _ | trailerDropped _ | sourceScanned _ _ _ _ => .trace
  | diagnosed _ _ | notASignature _ | fileSkipped _ _ | nothingMatched _ => .warn
  | _ => .debug

/-- A named number at the end of a log line. -/
def number (name : String) (value : Nat) : String :=
  " " ++ name ++ "=" ++ toString value

/-- What an event says, without its values. -/
def message : Event → String
  | commentCutOff style _ =>
    "unterminated " ++ Problem.backquoted style.opener ++ " comment closed at end of input"
  | stringCutOff _ => "unterminated string literal closed at end of line"
  | bodilessRoutine _ => "routine closed by `end` before its body"
  | surplusEnd _ => "surplus `end` ignored"
  | blocksAbandoned word _ _ => "closed unterminated blocks at `" ++ word ++ "`"
  | typesAbandoned _ => "`begin` closed unterminated type declarations"
  | textEndedInside _ => "input ended inside open declarations"
  | entriesLeftOpen _ => "closing open entries at end of input"
  | documentationDropped _ => "documentation discarded by intervening code"
  | trailerDropped _ => "trailing documentation with nothing before it discarded"
  | sourceScanned _ _ _ _ | fileScanned _ _ => "scanned"
  | diagnosed file diagnostic => file ++ ":" ++ diagnostic.describe
  | notASignature _ => "not a routine or property signature"
  | fileSkipped path reason => "skipping " ++ path ++ ": " ++ reason
  | nothingMatched pattern => "no files matched: " ++ pattern

/-- The values of an event, in the order in which they stand behind its
    message. -/
def values : Event → String
  | commentCutOff _ line | stringCutOff line | bodilessRoutine line | surplusEnd line
  | typesAbandoned line | documentationDropped line | trailerDropped line => number "line" line
  | blocksAbandoned _ count line => number "closed" count ++ number "line" line
  | textEndedInside count => number "open" count
  | entriesLeftOpen count => number "unclosed" count
  | sourceScanned file lexemes entries diagnostics =>
    " file=" ++ quoted file ++ number "lexemes" lexemes ++ number "entries" entries
      ++ number "diagnostics" diagnostics
  | fileScanned file entries => " file=" ++ file ++ number "entries" entries
  | notASignature text => " prototype=" ++ quoted text
  | diagnosed _ _ | fileSkipped _ _ | nothingMatched _ => ""

/-- An event as a line of the log. -/
def describe (e : Event) : String :=
  e.level.word ++ " " ++ terminalSafe e.message ++ e.values

/-- The event that a lexeme gives rise to: a string or comment that was cut
    off. -/
def ofLexeme? (l : Lexeme) : Option Event :=
  match l.kind with
  | .str false => some (.stringCutOff l.stop.line)
  | .comment ⟨.block style, _, false⟩ | .directive ⟨.block style, _, false⟩ =>
    some (.commentCutOff style l.start.line)
  | _ => none

/-- The events of a sequence of lexemes. -/
def ofLexemes (lexemes : List Lexeme) : List Event :=
  lexemes.filterMap ofLexeme?

/-- The lines of a log at a verbosity. -/
def logLines (verbosity : Nat) (events : List Event) : List String :=
  (events.filter fun e => e.level.verbosity ≤ verbosity).map describe

end Event

end PascalOutline
