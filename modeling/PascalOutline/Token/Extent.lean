import PascalOutline.Token

/-! # How far a phrase reaches

  Phrases of a declaration are not parsed but measured: how many tokens a
  group in brackets, a type expression, a list of type parameters or a
  directive takes. Each count stops early at a keyword that cannot stand in
  the phrase, so that a phrase left open does not swallow what follows it.
-/

namespace PascalOutline.Extent

/-! ### Groups in brackets -/

/-- The length of a group in brackets, up to the closing bracket that matches
    the first opening one; `depth` brackets are open so far. -/
def groupFrom (opening closing : String) (depth : Nat) : List Token → Nat
  | [] => 0
  | t :: ts =>
    if t.isKeywordThat Keyword.endsHeader then 0
    else if t.isSymbol opening then 1 + groupFrom opening closing (depth + 1) ts
    else if t.isSymbol closing then
      if depth ≤ 1 then 1 else 1 + groupFrom opening closing (depth - 1) ts
    else 1 + groupFrom opening closing depth ts

/-- The length of the group in brackets that the tokens begin with. -/
def group (opening closing : String) (ts : List Token) : Nat :=
  groupFrom opening closing 0 ts

/-! ### Type expressions and values -/

/-- The symbols that open a bracket in a type expression. -/
def openBrackets : List String := ["(", "[", "(."]

/-- The symbols that close a bracket in a type expression. -/
def closeBrackets : List String := [")", "]", ".)"]

/-- How many brackets and `record ... end` blocks of a type expression are
    open. -/
structure Nesting where
  /-- Open brackets. -/
  brackets : Nat
  /-- Open blocks. -/
  blocks : Nat
deriving DecidableEq, Repr, Inhabited

/-- Whether nothing is open. -/
def Nesting.isOuter (n : Nesting) : Bool :=
  n.brackets == 0 && n.blocks == 0

/-- The nesting after a symbol; nothing if the expression ends before it. -/
def Nesting.symbol (n : Nesting) (t : Token) : Option Nesting :=
  if t.isSymbolIn openBrackets then some { n with brackets := n.brackets + 1 }
  else if t.isSymbolIn closeBrackets then
    if n.brackets = 0 then none else some { n with brackets := n.brackets - 1 }
  else if t.isSymbol ";" && n.isOuter then none
  else some n

/-- The nesting after a keyword; nothing if the expression ends before it.
    After `of`, an `object` opens no block and a `const` does not end the
    expression. -/
def Nesting.keyword (n : Nesting) (afterOf : Bool) : Keyword → Option Nesting
  | .record => some { n with blocks := n.blocks + 1 }
  | .object => if afterOf then some n else some { n with blocks := n.blocks + 1 }
  | .end_ => if n.blocks = 0 then none else some { n with blocks := n.blocks - 1 }
  | .type_ | .var => if n.isOuter then none else some n
  | .const => if n.isOuter && !afterOf then none else some n
  | kw => if kw.isHardStop then none else some n

/-- The nesting after a token; nothing if the expression ends before it.
    `stops` are words and symbols that end an expression with nothing open. -/
def Nesting.token (n : Nesting) (stops : List String) (afterOf : Bool) (t : Token) :
    Option Nesting :=
  if n.isOuter && isOneOf t.text stops then none
  else match t.keyword? with
    | some kw => n.keyword afterOf kw
    | none => n.symbol t

/-- The length of a type expression or value of which a part was read. -/
def typeExprFrom (stops : List String) (n : Nesting) (afterOf : Bool) : List Token → Nat
  | [] => 0
  | t :: ts =>
    match n.token stops afterOf t with
    | none => 0
    | some n => 1 + typeExprFrom stops n (t.isKeyword .of_) ts

/-- The length of a type expression or value: up to a semicolon, a closing
    bracket without its opening one, an `end`, a keyword that cannot stand in
    it, or one of `stops`. `record ... end` and `object ... end` are passed
    whole. -/
def typeExpr (stops : List String) (ts : List Token) : Nat :=
  typeExprFrom stops ⟨0, 0⟩ false ts

/-! ### Type parameters -/

/-- The length of a list of type parameters, and whether it ended in `>=`, so
    that the `=` of a type declaration went with it. -/
structure Generics where
  /-- The number of tokens. -/
  length : Nat
  /-- Whether the last one is `>=`. -/
  tookEquals : Bool
deriving DecidableEq, Repr, Inhabited

/-- One more token in front. -/
def Generics.succ (g : Generics) : Generics :=
  { g with length := g.length + 1 }

/-- Type parameters of which a part was read; `depth` brackets are open. -/
def genericsFrom (depth : Nat) : List Token → Generics
  | [] => ⟨0, false⟩
  | t :: ts =>
    if t.isSymbol "<" then (genericsFrom (depth + 1) ts).succ
    else if t.isSymbol ">" || t.isSymbol ">=" then
      if depth ≤ 1 then ⟨1, t.isSymbol ">="⟩ else (genericsFrom (depth - 1) ts).succ
    else if t.isSymbolIn [";", "=", "(", ")", ":="] then ⟨0, false⟩
    else if t.isKeywordThat fun kw => kw = .begin || kw = .end_ || kw = .implementation then
      ⟨0, false⟩
    else (genericsFrom depth ts).succ

/-- The type parameters that the tokens begin with. -/
def generics (ts : List Token) : Generics :=
  genericsFrom 0 ts

/-! ### The rest of a header -/

/-- Whether a header ends before a token. -/
def endsHeader (t : Token) : Bool :=
  t.isSymbol ";" || t.isKeywordThat Keyword.endsHeader

/-- The number of tokens before the end of a header. -/
def headerRest (ts : List Token) : Nat :=
  (ts.takeWhile fun t => !endsHeader t).length

/-! ### Directives -/

/-- The words that may follow a header after its semicolon. -/
def directiveWords : List String :=
  ["abstract", "assembler", "cdecl", "cvar", "delayed", "deprecated", "dispid", "dynamic",
   "experimental", "export", "external", "far", "final", "forward", "inline", "interrupt",
   "library", "local", "message", "near", "noreturn", "nostackframe", "overload", "override",
   "pascal", "platform", "register", "reintroduce", "safecall", "static", "stdcall", "unsafe",
   "varargs", "virtual", "winapi"]

/-- Whether the tokens begin with a directive. A directive word before one of
    a few symbols is an ordinary name. -/
def startsDirective : List Token → Bool
  | [] => false
  | t :: ts =>
    t.isWordIn directiveWords && !ts.head?.any fun s => s.isSymbolIn [":", ",", "=", ".", ":="]

/-- The number of tokens after a directive word that belong to it. -/
def directiveArgs : List Token → Nat
  | [] => 0
  | t :: ts => if endsHeader t || startsDirective (t :: ts) then 0 else 1 + directiveArgs ts

/-- A sequence of directives. -/
structure Directives where
  /-- The text of each one. -/
  texts : List String
  /-- The number of tokens, semicolons included. -/
  length : Nat
deriving DecidableEq, Repr, Inhabited

/-- The directives that the tokens begin with. -/
def directives : List Token → Directives
  | [] => ⟨[], 0⟩
  | t :: ts =>
    if startsDirective (t :: ts) then
      let n := directiveArgs ts
      let passed := if (ts.drop n).head?.any (Token.isSymbol · ";") then n + 1 else n
      let others := directives (ts.drop passed)
      ⟨Token.render (t :: ts.take n) :: others.texts, 1 + passed + others.length⟩
    else ⟨[], 0⟩
termination_by ts => ts.length
decreasing_by simp only [List.length_drop, List.length_cons]; omega

/-! ### Accessors of a property -/

/-- The words that begin an accessor of a property. -/
def accessorWords : List String :=
  ["read", "write", "index", "default", "stored", "nodefault", "implements", "readonly",
   "writeonly", "dispid", "add", "remove"]

/-- The accessors that the tokens begin with. -/
def accessors : List Token → Directives
  | [] => ⟨[], 0⟩
  | t :: ts =>
    if t.isWordIn accessorWords then
      let n := typeExpr accessorWords ts
      let others := accessors (ts.drop n)
      ⟨Token.render (t :: ts.take n) :: others.texts, 1 + n + others.length⟩
    else ⟨[], 0⟩
termination_by ts => ts.length
decreasing_by simp only [List.length_drop, List.length_cons]; omega

/-- The number of `default;` that the tokens begin with. -/
def defaultMarks : List Token → Nat
  | t :: s :: ts => if t.isWord "default" && s.isSymbol ";" then 1 + defaultMarks ts else 0
  | _ => 0

/-! ### Names -/

/-- One part of a dotted name. -/
structure Segment where
  /-- Its name. -/
  name : String
  /-- The number of tokens from the beginning of the dotted name up to its
      end, type parameters included. -/
  stop : Nat
deriving DecidableEq, Repr, Inhabited

/-- The parts of a dotted name of which `before` tokens were read. -/
def segments (before : Nat) : List Token → List Segment
  | [] => []
  | t :: ts =>
    if t.isName then
      let n := if ts.head?.any (Token.isSymbol · "<") then (generics ts).length else 0
      let rest := ts.drop n
      let stop := before + 1 + n
      let more := rest.head?.any (Token.isSymbol · ".") && rest[1]?.any Token.isName
      ⟨t.text, stop⟩ :: if more then segments (stop + 1) (ts.drop (n + 1)) else []
    else []
termination_by ts => ts.length
decreasing_by simp only [List.length_drop, List.length_cons]; omega

/-- A name, perhaps with an owner in front. -/
structure QualifiedName where
  /-- Everything before the last dot. -/
  qualifier : Option String
  /-- The last part, without type parameters. -/
  name : String
  /-- The number of tokens. -/
  length : Nat
deriving DecidableEq, Repr, Inhabited

/-- The dotted name that the tokens begin with. -/
def qualifiedName (ts : List Token) : QualifiedName :=
  let parts := segments 0 ts
  match parts.getLast? with
  | none => ⟨none, "", 0⟩
  | some part =>
    ⟨parts.dropLast.getLast?.map fun owner => Token.render (ts.take owner.stop), part.name,
      part.stop⟩

/-- The name of an operator: a symbol or a word. -/
def operatorName : List Token → QualifiedName
  | [] => ⟨none, "", 0⟩
  | t :: _ =>
    let isSymbolName := t.lexeme.kind = .symbol && !t.isSymbolIn ["(", ";", ":"]
    if isSymbolName || t.isIdent then ⟨none, t.text, 1⟩ else ⟨none, "", 0⟩

end PascalOutline.Extent
