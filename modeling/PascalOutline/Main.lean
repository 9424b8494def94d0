import PascalOutline.Command.Session

/-! # The command line

  Loads the files that the command may need, runs it on them, and carries out
  what it decided: the log and the reason of a failure go to the standard error
  stream, the outlines to the standard output or into files.
-/

namespace PascalOutline.Main

/-- Reads a stream to its end. -/
partial def readAll (stream : IO.FS.Stream) (before : ByteArray) : IO ByteArray := do
  let more ← stream.read 65536
  if more.isEmpty then return before else readAll stream (before ++ more)

/-- Adds what lies below a folder to a tree. Only sources are ever read, so the
    contents of other files are left out. -/
def loadBelow (before : FileTree) (folder : String) : IO FileTree := do
  let mut tree := before
  for path in ← (← IO.FS.realPath folder).walkDir do
    let place := path.components.drop 1
    if ← path.isDir then
      tree := { tree with folders := place :: tree.folders }
    else
      let content ←
        if Session.isSource path.toString then IO.FS.readBinFile path else pure ByteArray.empty
      tree := { tree with files := (place, content) :: tree.files }
  return tree

/-- What lies below the working folder, and for each file argument what lies
    below it or below the folder that it lies in. -/
def loadTree (args : List String) : IO FileTree := do
  let here ← IO.currentDir
  let mut tree ← loadBelow { files := [], home := here.components.drop 1 } here.toString
  for arg in args do
    let path := here / arg
    let folder := if ← path.isDir then path else path.parent.getD path
    if (← folder.isDir) && !tree.isFolder folder.toString then
      tree ← loadBelow tree folder.toString
  return tree

/-- The absolute path of a place. -/
def pathOf (place : Place) : String :=
  "/" ++ "/".intercalate place

/-- Writes the folders and files that a run made. -/
def saveTree (before after : FileTree) : IO Unit := do
  for place in after.folders do
    unless before.hasFolder place do
      IO.FS.createDirAll (pathOf place)
  for (place, content) in after.changesSince before do
    IO.FS.writeBinFile (pathOf place) content

end PascalOutline.Main

open PascalOutline in
/-- Runs the command in the working folder. -/
def main (args : List String) : IO UInt32 := do
  let request := Arguments.read args
  let tree ←
    match request.filter (·.mode = .files) with
    | some a => Main.loadTree a.files
    | none => pure { files := [] }
  let input ←
    if (request.map (·.mode)) = some .input then Main.readAll (← IO.getStdin) .empty
    else pure .empty
  let outcome := command args input tree
  for line in outcome.log do
    IO.eprintln line
  Main.saveTree tree outcome.tree
  IO.print outcome.stdout
  if let some failure := outcome.failure then
    IO.eprintln ("Error: " ++ failure.message)
  return outcome.code.toUInt32
