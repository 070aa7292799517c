import GraphSchema.Text.Basic

/-!
# Tokens

The words that a schema document is made of. A token knows where it stands, and the comments and
the ignored text in front of it.

## Main definitions

* `Token.Kind`: the kinds of tokens, with their names and, for symbols, their spelling.
* `Token`: a token.
* `Token.same`: tokens of one kind, value and place; what stands in front of them does not count.
-/

namespace GraphSchema

namespace Token

/-- The kinds of tokens; `plain` and `constant` stand for tokens of no particular kind. -/
inductive Kind where
  | plain
  | constant
  | start
  | finish
  | exclamationMark
  | dollar
  | parenOpen
  | parenClose
  | bracketOpen
  | bracketClose
  | curlyOpen
  | curlyClose
  | colon
  | equals
  | sign
  | pipe
  | ampersand
  | ellipsis
  | integer
  | float
  | name
  | string
  | blockString
deriving DecidableEq

namespace Kind

/-- All kinds. -/
def all : List Kind :=
  [.plain, .constant, .start, .finish, .exclamationMark, .dollar, .parenOpen, .parenClose,
   .bracketOpen, .bracketClose, .curlyOpen, .curlyClose, .colon, .equals, .sign, .pipe, .ampersand,
   .ellipsis, .integer, .float, .name, .string, .blockString]

/-- The name of a kind, as messages show it. -/
def label : Kind → Text
  | plain => "Token"
  | constant => "ConstToken"
  | start => "SOF"
  | finish => "EOF"
  | exclamationMark => "ExclamationMark"
  | dollar => "Dollar"
  | parenOpen => "ParenOpen"
  | parenClose => "ParenClose"
  | bracketOpen => "BracketOpen"
  | bracketClose => "BracketClose"
  | curlyOpen => "CurlyOpen"
  | curlyClose => "CurlyClose"
  | colon => "Colon"
  | equals => "Equals"
  | sign => "At"
  | pipe => "Pipe"
  | ampersand => "Ampersand"
  | ellipsis => "Ellip"
  | integer => "Integer"
  | float => "Float"
  | name => "Name"
  | string => "String"
  | blockString => "BlockString"

/-- The value that all tokens of a kind share, if they do. -/
def spelling? : Kind → Option Text
  | constant => some []
  | start => some "<SOF>"
  | finish => some "<EOF>"
  | exclamationMark => some "!"
  | dollar => some "$"
  | parenOpen => some "("
  | parenClose => some ")"
  | bracketOpen => some "["
  | bracketClose => some "]"
  | curlyOpen => some "\x7b"
  | curlyClose => some "\x7d"
  | colon => some ":"
  | equals => some "="
  | sign => some "@"
  | pipe => some "|"
  | ampersand => some "&"
  | ellipsis => some "..."
  | _ => none

/-- The kinds that a single code point makes up. -/
def symbols : List Kind :=
  [.exclamationMark, .dollar, .parenOpen, .parenClose, .bracketOpen, .bracketClose, .curlyOpen,
   .curlyClose, .colon, .equals, .sign, .pipe, .ampersand]

/-- The kind that a code point makes up on its own. -/
def ofSymbol? (c : CodePoint) : Option Kind := symbols.find? fun k => k.spelling? = some [c]

/-- The kind with a given name. -/
def ofLabel? (t : Text) : Option Kind := all.find? fun k => k.label = t

/-- A quoted literal. -/
def isString (k : Kind) : Bool := k = .string || k = .blockString

end Kind

end Token

/-- A token from offset `start` up to offset `stop`. -/
structure Token where
  kind : Token.Kind
  start : Nat
  stop : Nat
  value : Text
  comments : List Text
  ignored : Text
deriving DecidableEq

namespace Token

/-- A token with nothing in front of it; the value is given by the kind where the kind has one. -/
def placed (kind : Kind) (start stop : Nat) (value : Text) : Token :=
  { kind, start, stop, value := kind.spelling?.getD value, comments := [], ignored := [] }

/-- Tokens of one kind, value and place. -/
def same (a b : Token) : Bool :=
  a.kind = b.kind && a.value = b.value && a.start = b.start && a.stop = b.stop

/-- A name with a given value. -/
def isWord (a : Token) (word : Text) : Bool := a.kind = .name && a.value = word

/-- Kind, value and place on one line. -/
def describe (a : Token) : Text :=
  "<Token." ++ a.kind.label ++ ": value='" ++ a.value ++ "' at (" ++ Text.ofNat a.start ++ ", "
    ++ Text.ofNat a.stop ++ ")>"

end Token

end GraphSchema
