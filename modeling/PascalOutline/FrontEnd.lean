import PascalOutline.Prototype
import PascalOutline.Scan

/-! # Choosing a front end

  A documentation tool picks the reader for a file by its extension. There is
  one reader, for Pascal sources.
-/

namespace PascalOutline

/-- The extensions of Pascal sources. -/
def sourceExtensions : List String :=
  ["pas", "pp", "p", "dpr", "dpk", "lpr", "inc"]

/-- An extension that no reader is known for. -/
structure UnsupportedExtension where
  /-- The extension, without leading dots and in lower case. -/
  extension : String
deriving DecidableEq, Repr, Inhabited

/-- The wording for an extension without a reader. -/
def UnsupportedExtension.message (e : UnsupportedExtension) : String :=
  "no outline parser for `." ++ e.extension ++ "` files"

/-- A reader for Pascal sources. -/
structure FrontEnd where
  /-- How sources are read. -/
  options : Options := {}
deriving DecidableEq, Repr, Inhabited

namespace FrontEnd

/-- The reader for an extension, given with or without its dot and in any
    case. -/
def forExtension (extension : String) (options : Options) :
    Except UnsupportedExtension FrontEnd :=
  let bare := lowered (String.ofList (extension.toList.dropWhile (· = '.')))
  if sourceExtensions.contains bare then .ok ⟨options⟩ else .error ⟨bare⟩

/-- Scans one file. -/
def scan (f : FrontEnd) (file source : String) : Report :=
  PascalOutline.scan f.options file source

/-- The events of scanning one file. -/
def scanEvents (f : FrontEnd) (file source : String) : List Event :=
  PascalOutline.scanEvents f.options file source

/-- Whether a file has to go through a preprocessor before it is scanned. No
    Pascal source has: conditional directives are trivia. -/
def needsPreprocessing (_ : FrontEnd) (_extension : String) : Bool :=
  false

/-- Reads a signature on its own. -/
def readPrototype (_ : FrontEnd) (text : String) : Entry :=
  Prototype.read text

end FrontEnd

end PascalOutline
