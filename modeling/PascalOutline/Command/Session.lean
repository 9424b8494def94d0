import PascalOutline.Command.Arguments
import PascalOutline.FileTree
import PascalOutline.Format
import PascalOutline.FrontEnd
import PascalOutline.Glob

/-! # Running the command

  The command prints the outline of the standard input, of files, or the entry
  for one signature. It is a function from its arguments, its input and the
  files that it finds to what it prints, logs and writes. How patterns are
  matched with files is a parameter of it (`commandWith`).
-/

namespace PascalOutline

/-! ### Outcomes -/

/-- Why the command gave up. -/
inductive Failure where
  /-- There is no such output format. -/
  | unknownFormat (cause : UnknownFormat)
  /-- The standard input is no text. -/
  | unreadableInput
  /-- A file is no text. -/
  | unreadableFile (path : String)
  /-- The folder for the output files cannot be made. -/
  | unusableFolder (path : String)
  /-- A file pattern is malformed. -/
  | malformedPattern (cause : Glob.Malformed)
  /-- An output file cannot be written. -/
  | unwritableFile (path : String)
deriving DecidableEq, Repr, Inhabited

/-- The wording of a failure. -/
def Failure.message : Failure → String
  | unknownFormat cause => cause.message
  | unreadableInput => "failed to read stdin"
  | unreadableFile path => "failed to read " ++ path
  | unusableFolder path => "failed to create output directory: " ++ path
  | malformedPattern cause => "invalid glob pattern: " ++ cause.pattern
  | unwritableFile path => "failed to write " ++ path

/-- The state of a run of the command. -/
structure Session where
  /-- The files as they are now. -/
  tree : FileTree
  /-- What happened so far. -/
  events : List Event := []
  /-- What is to be printed. -/
  stdout : String := ""
deriving Inhabited

/-- A run that gave up. -/
structure Halted where
  /-- Why. -/
  failure : Failure
  /-- The state that it left. -/
  session : Session
deriving Inhabited

namespace Session

/-- Notes events. -/
def log (s : Session) (events : List Event) : Session :=
  { s with events := s.events ++ events }

/-- Prints a text. -/
def print (s : Session) (text : String) : Session :=
  { s with stdout := s.stdout ++ text }

/-- Gives up. -/
def halt {α : Type} (s : Session) (failure : Failure) : Except Halted α :=
  .error ⟨failure, s⟩

/-- The format with a name, or the end of the run. -/
def format (s : Session) (a : Arguments) : Except Halted Format :=
  match Format.named a.formatName with
  | .ok format => .ok format
  | .error cause => s.halt (.unknownFormat cause)

/-- The events for the problems in a file. -/
def diagnosed (file : String) (r : Report) : List Event :=
  r.diagnostics.map (.diagnosed file)

/-! ### One signature -/

/-- Prints the entry for a signature. -/
def showPrototype (s : Session) (a : Arguments) (text : String) : Except Halted Session := do
  let format ← s.format a
  let e := Prototype.read text
  let complaint : List Event := if e.name = "" then [.notASignature text] else []
  return (s.log (Prototype.events text ++ complaint)).print (format.entry e)

/-! ### Standard input -/

/-- The name of the standard input. -/
def inputName : String := "<stdin>"

/-- Prints the outline of the standard input. -/
def showInput (s : Session) (a : Arguments) (input : ByteArray) : Except Halted Session := do
  match String.fromUTF8? input with
  | none => s.halt .unreadableInput
  | some source =>
    let format ← s.format a
    let f : FrontEnd := ⟨a.options⟩
    let r := f.scan inputName source
    return (s.log (f.scanEvents inputName source ++ diagnosed inputName r)).print (format.report r)

/-! ### Files -/

/-- Whether a path has the extension of a Pascal source. -/
def isSource (path : String) : Bool :=
  (Path.extension? path).any fun extension => sourceExtensions.contains (lowered extension)

/-- The files that an argument stands for: a file itself, the Pascal sources
    directly in a folder, or what a pattern matches. -/
def expand (glob : Glob.Finder) (tree : FileTree) (arg : String) :
    Except Glob.Malformed (List String) :=
  if tree.isFile arg then .ok [arg]
  else if tree.isFolder arg then
    .ok (((tree.names arg).map (Path.join arg)).filter fun p => tree.isFile p && isSource p)
  else glob tree arg

/-- Adds the files that an argument stands for to those of the arguments
    before it. -/
def expandNext (glob : Glob.Finder) (found : Session × List String) (arg : String) :
    Except Halted (Session × List String) :=
  let (s, paths) := found
  match expand glob s.tree arg with
  | .error cause => s.halt (.malformedPattern cause)
  | .ok more =>
    let complaint : List Event := if more = [] then [.nothingMatched arg] else []
    .ok (s.log complaint, paths ++ more)

/-- The name of the output file for a source, without its extension. -/
def outputStem (path : String) : String :=
  (Path.stem? path).getD path

/-- Puts the outline of a file where it belongs: into the output folder, or
    on the standard output. -/
def deliver (s : Session) (a : Arguments) (format : Format) (path text : String) :
    Except Halted Session :=
  match a.output with
  | none => .ok (s.print text)
  | some folder =>
    let name := outputStem path ++ "." ++ format.extension
    match s.tree.write? folder name text with
    | none => s.halt (.unwritableFile (Path.join folder name))
    | some tree => .ok { s with tree }

/-- Reads one file and delivers its outline. A file with another extension is
    left out. -/
def processFile (a : Arguments) (format : Format) (s : Session) (path : String) :
    Except Halted Session :=
  match FrontEnd.forExtension ((Path.extension? path).getD "") a.options with
  | .error cause => .ok (s.log [.fileSkipped path cause.message])
  | .ok f =>
    match (s.tree.read? path).bind String.fromUTF8? with
    | none => s.halt (.unreadableFile path)
    | some source =>
      let r := f.scan path source
      let events := f.scanEvents path source ++ [.fileScanned path r.outline.size]
        ++ diagnosed path r
      (s.log events).deliver a format path (format.report r)

/-- Makes the output folder, if there is one. -/
def makeOutput (s : Session) (a : Arguments) : Except Halted Session :=
  match a.output with
  | none => .ok s
  | some folder =>
    match s.tree.makeFolders? folder with
    | none => s.halt (.unusableFolder folder)
    | some tree => .ok { s with tree }

/-- Reads all files and delivers their outlines, in the order of their paths. -/
def showFiles (glob : Glob.Finder) (s : Session) (a : Arguments) : Except Halted Session := do
  let format ← s.format a
  let s ← s.makeOutput a
  let (s, paths) ← a.files.foldlM (expandNext glob) (s, [])
  (Path.sorted paths).foldlM (processFile a format) s

/-- Does what the arguments ask for. -/
def perform (glob : Glob.Finder) (s : Session) (a : Arguments) (input : ByteArray) :
    Except Halted Session :=
  match a.mode with
  | .prototype text => s.showPrototype a text
  | .input => s.showInput a input
  | .files => s.showFiles glob a

end Session

/-! ### The command -/

/-- What a run of the command leaves. -/
structure Outcome where
  /-- The exit code: 0 for success, 1 for a failure, 2 for malformed
      arguments. -/
  code : Nat
  /-- What was printed. Nothing is printed before the end. -/
  stdout : String
  /-- Why the run gave up. -/
  failure : Option Failure
  /-- The log. -/
  log : List String
  /-- The files as they are now. -/
  tree : FileTree
deriving Inhabited

/-- Runs the command on its arguments and its standard input, in a folder with
    some files, where `glob` finds what patterns match. -/
def commandWith (glob : Glob.Finder) (args : List String) (input : ByteArray) (tree : FileTree) :
    Outcome :=
  match Arguments.read args with
  | none => ⟨2, "", none, [], tree⟩
  | some a =>
    match ({ tree } : Session).perform glob a input with
    | .ok s => ⟨0, s.stdout, none, Event.logLines a.verbosity s.events, s.tree⟩
    | .error ⟨failure, s⟩ =>
      ⟨1, "", some failure, Event.logLines a.verbosity s.events, s.tree⟩

/-- Runs the command with the usual patterns. -/
def command (args : List String) (input : ByteArray) (tree : FileTree) : Outcome :=
  commandWith Glob.files args input tree

end PascalOutline
