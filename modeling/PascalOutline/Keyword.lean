import PascalOutline.Text.Case

/-! # Keywords

  The words that structure a Pascal source. The contextual ones (visibility
  words, package clauses, `operator`) structure it only where no declaration
  name is expected; everywhere else they are ordinary names.
-/

namespace PascalOutline

/-- A word with a structural meaning. -/
inductive Keyword where
  | asm | begin | case_ | class_ | const | constructor | destructor | dispInterface | end_ | exports
  | finalization | function | implementation | initialization | interface | label | library
  | object | of_ | packed | procedure | program | property | record | resourceString | threadVar
  | try_ | type_ | unit | uses | var
  | automated | contains | operator | package | private_ | protected_ | public_ | published
  | requires | strict
deriving DecidableEq, Repr, Inhabited

namespace Keyword

/-- The spelling of a keyword, in lower case. -/
def spelling : Keyword → String
  | asm => "asm"
  | begin => "begin"
  | case_ => "case"
  | class_ => "class"
  | const => "const"
  | constructor => "constructor"
  | destructor => "destructor"
  | dispInterface => "dispinterface"
  | end_ => "end"
  | exports => "exports"
  | finalization => "finalization"
  | function => "function"
  | implementation => "implementation"
  | initialization => "initialization"
  | interface => "interface"
  | label => "label"
  | library => "library"
  | object => "object"
  | of_ => "of"
  | packed => "packed"
  | procedure => "procedure"
  | program => "program"
  | property => "property"
  | record => "record"
  | resourceString => "resourcestring"
  | threadVar => "threadvar"
  | try_ => "try"
  | type_ => "type"
  | unit => "unit"
  | uses => "uses"
  | var => "var"
  | automated => "automated"
  | contains => "contains"
  | operator => "operator"
  | package => "package"
  | private_ => "private"
  | protected_ => "protected"
  | public_ => "public"
  | published => "published"
  | requires => "requires"
  | strict => "strict"

/-- Every keyword. -/
def all : List Keyword :=
  [asm, begin, case_, class_, const, constructor, destructor, dispInterface, end_, exports,
   finalization, function, implementation, initialization, interface, label, library,
   object, of_, packed, procedure, program, property, record, resourceString, threadVar,
   try_, type_, unit, uses, var,
   automated, contains, operator, package, private_, protected_, public_, published,
   requires, strict]

/-- The keyword spelled like a word, in any case. -/
def ofWord? (word : String) : Option Keyword :=
  all.find? fun kw => sameWord word kw.spelling

/-- Whether a keyword may still name a declaration. -/
def isContextual : Keyword → Bool
  | automated | contains | operator | package | private_ | protected_ | public_ | published
  | requires | strict => true
  | _ => false

/-- Whether a keyword introduces a routine. -/
def isRoutine : Keyword → Bool
  | procedure | function | constructor | destructor | operator => true
  | _ => false

/-- Whether a keyword never occurs inside a header or a type expression, so
    that a declaration without its semicolon ends there. -/
def isHardStop : Keyword → Bool
  | begin | implementation | initialization | finalization | uses | unit | program | asm | exports
  | label | resourceString | threadVar | constructor | destructor | property => true
  | _ => false

/-- Whether a header or a group in brackets ends at a keyword. -/
def endsHeader (kw : Keyword) : Bool :=
  kw = end_ || kw.isHardStop

/-- Every keyword is listed. -/
theorem mem_all (kw : Keyword) : kw ∈ all := by
  cases kw <;> decide

end Keyword

end PascalOutline
