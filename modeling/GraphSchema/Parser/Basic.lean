import GraphSchema.Node.Basic
import GraphSchema.Token.Lexer

/-!
# Parsers

A parser reads the tokens of one document through a window: the tokens that were looked at but not
yet taken. Tokens come from a lexer when the window is too short. A parser keeps its state when a
rule fails, so that reading can be taken up again.

## Main definitions

* `Parser`, `Parser.Document`: the state of a parser and the document it reads.
* `Parse`: a rule that reads from a parser.
* `Parse.peek`, `Parse.advance`, `Parse.expect`, `Parse.skip`: single tokens.
* `Parse.many`, `Parse.any`, `Parse.delimited`: lists.
* `Parse.node`: a node that ends with the last token taken.
-/

namespace GraphSchema

/-- A lexer, the tokens that were looked at but not taken, from the oldest to the newest, and the
offset at which the last taken token ends. -/
structure Parser where
  lexer : Lexer
  window : List Token
  lastStop : Nat

namespace Parser

/-- A document as a parser sees it; `located` says whether nodes are given their locations. -/
structure Document where
  source : Text
  name : Option Text
  located : Bool
  length : Nat
  starts : Array Int

namespace Document

/-- The name of documents that were not given one. -/
def defaultName : Text := "GraphQL"

/-- A document with a given text and name. -/
def ofText (source : Text) (name : Option Text) (located : Bool) : Document :=
  { source, name, located, length := source.length, starts := Source.index source }

/-- At least as many tokens as a document has: one for each code point, and two for its ends. -/
def budget (d : Document) : Nat := d.length + 2

/-- Line and column of an offset, with the name of the document. -/
def location (d : Document) (offset : Nat) : SourceLocation :=
  match Source.address? d.starts offset with
  | some (line, column) => ⟨line, column, d.name⟩
  | none => ⟨0, 0, d.name⟩

end Document

/-- A parser at the start of a text. -/
def ofText (source : Text) : Parser := { lexer := .ofText source, window := [], lastStop := 0 }

end Parser

/-- A rule that reads from a parser. -/
abbrev Parse := ReaderT Parser.Document (EStateM SyntaxError Parser)

namespace Parse

/-- Fails at the end of the document. -/
def failAtEnd {α : Type} : Parse α := do
  throw { cause := .unexpectedEnd, position := (← read).length }

/-- Reads a token with the lexer, if there is one left. -/
def lex : Parse (Option Token) := fun _ parser =>
  match parser.lexer.next with
  | .ok token lexer => .ok token { parser with lexer }
  | .error e lexer => .error e { parser with lexer }

/-- Appends up to `n` tokens to the window. An empty window at the end of the document is an
error. -/
def extend : (n : Nat) → Parse Unit
  | 0 => return
  | n + 1 => do
    match ← lex with
    | some token => do
      modify fun p => { p with window := p.window ++ [token] }
      extend n
    | none => if (← get).window.isEmpty then failAtEnd

/-- The token `n` places ahead, the next one being the first. A number that is not positive counts
from the newest token of the window, which is number zero, to older ones. -/
def peekAt (n : Int) : Parse Token := do
  extend (n - (← get).window.length).toNat
  let window := (← get).window
  let found := if 0 < n then window[n.toNat - 1]? else window.reverse[(-n).toNat]?
  match found with
  | some token => return token
  | none => failAtEnd

/-- The next token, which is not taken. -/
def peek : Parse Token := peekAt 1

/-- Takes the next token. -/
def advance : Parse Token := do
  if (← get).window.isEmpty then extend 1
  match (← get).window with
  | [] => failAtEnd
  | token :: rest => do
    modify fun p => { p with window := rest, lastStop := token.stop }
    return token

/-- Fails at a token. -/
def failAt {α : Type} (token : Token) (cause : SyntaxError.Cause) : Parse α :=
  throw { cause, position := token.start }

/-- Fails at a token that has no place where it stands. -/
def unexpected {α : Type} (token : Token) : Parse α :=
  failAt token (if token.kind = .finish then .unexpectedEnd else .unexpectedToken token.value)

/-- Takes the next token, which must be of a given kind. -/
def expect (kind : Token.Kind) : Parse Token := do
  let token ← peek
  if token.kind = kind then advance else failAt token (.expectedKind kind token.value)

/-- Takes the next token, which must be a given name. -/
def expectWord (word : Text) : Parse Token := do
  let token ← peek
  if token.isWord word then advance else failAt token (.expectedWord word token.value)

/-- Takes the next token if it is of a given kind, and says whether it did. -/
def skip (kind : Token.Kind) : Parse Bool := do
  if (← peek).kind = kind then do
    let _ ← advance
    return true
  else return false

/-- Whether the next token is of a given kind. -/
def ahead (kind : Token.Kind) : Parse Bool := do return (← peek).kind = kind

/-- The items that a rule reads until `stop` says so, which is asked in front of each item; `fuel`
bounds their number. -/
def itemsUntil {α : Type} (stop : Parse Bool) (item : Parse α) : (fuel : Nat) → Parse (List α)
  | 0 => failAtEnd
  | fuel + 1 => do
    if ← stop then return []
    else do
      let first ← item
      return first :: (← itemsUntil stop item fuel)

/-- The items that a rule reads until `stop` says so. -/
def allUntil {α : Type} (stop : Parse Bool) (item : Parse α) : Parse (List α) := do
  itemsUntil stop item (← read).budget

/-- One item at least, and more until `stop` says so. -/
def someUntil {α : Type} (stop : Parse Bool) (item : Parse α) : Parse (List α) := do
  let first ← item
  return first :: (← allUntil stop item)

/-- Items between two tokens, at least one. -/
def many {α : Type} (opening : Token.Kind) (item : Parse α) (closing : Token.Kind) :
    Parse (List α) := do
  let _ ← expect opening
  someUntil (skip closing) item

/-- Items between two tokens, possibly none. -/
def any {α : Type} (opening : Token.Kind) (item : Parse α) (closing : Token.Kind) :
    Parse (List α) := do
  let _ ← expect opening
  allUntil (skip closing) item

/-- Items with a token between neighbours, at least one; the token may also stand in front of the
first item. -/
def delimited {α : Type} (delimiter : Token.Kind) (item : Parse α) : Parse (List α) := do
  let _ ← skip delimiter
  someUntil (return !(← skip delimiter)) item

/-- Items between two tokens if the first one is ahead, and none otherwise. -/
def optionalMany {α : Type} (opening : Token.Kind) (item : Parse α) (closing : Token.Kind) :
    Parse (List α) := do
  if ← ahead opening then many opening item closing else return []

/-- The metadata of a node from a given token up to the last token taken. -/
def metadata (start : Token) : Parse Metadata := do
  let document ← read
  let stop := (← get).lastStop
  return {
    source := document.source
    span := if document.located then some ⟨start.start, stop⟩ else none
    location := if document.located then some (document.location start.start) else none
    comments := start.comments.map Atom.text
    ignored := .text start.ignored
    data := [] }

/-- A node from a given token up to the last token taken. -/
def node (start : Token) (kind : Kind) (slots : List Slot) : Parse Node := do
  return Node.mk kind (← metadata start) slots

/-- Runs a rule on a parser. -/
def runOn {α : Type} (rule : Parse α) (document : Parser.Document) (parser : Parser) :
    Except SyntaxError α × Parser :=
  match rule document parser with
  | .ok a parser => (.ok a, parser)
  | .error e parser => (.error e, parser)

/-- Runs a rule at the start of a document. -/
def run {α : Type} (rule : Parse α) (document : Parser.Document) : Except SyntaxError α :=
  (rule.runOn document (.ofText document.source)).1

end Parse

end GraphSchema
