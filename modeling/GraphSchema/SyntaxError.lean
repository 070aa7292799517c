import GraphSchema.Source.Excerpt
import GraphSchema.Token

/-!
# Syntax errors

Why a text is no schema document, and where this shows.

## Main definitions

* `SyntaxError.Cause`: the causes.
* `SyntaxError`: a cause and an offset.
* `SyntaxError.message`, `SyntaxError.highlighted?`, `SyntaxError.address?`.
-/

namespace GraphSchema

namespace SyntaxError

/-- The classes into which syntax errors fall. -/
inductive Class where
  | syntaxError
  | invalidCharacter
  | unexpectedCharacter
  | unexpectedEnd
  | nonTerminatedString
  | invalidEscape
  | unexpectedToken
deriving DecidableEq

/-- What is wrong; `reported` is for errors that callers make themselves. -/
inductive Cause where
  | invalidCharacter (c : CodePoint)
  | unexpectedCharacter (c : CodePoint)
  | expectedDot (found : CodePoint)
  | unexpectedEnd
  | nonTerminatedString
  | invalidEscape (rest : Text)
  | expectedKind (kind : Token.Kind) (found : Text)
  | expectedWord (word found : Text)
  | unexpectedToken (found : Text)
  | reservedEnumValue (name : Text)
  | unknownLocation (name : Text)
  | reported (category : Class) (message : Text)
deriving DecidableEq

namespace Cause

/-- The class of a cause. -/
def category : Cause → Class
  | invalidCharacter _ => .invalidCharacter
  | unexpectedCharacter _ => .unexpectedCharacter
  | expectedDot _ => .unexpectedCharacter
  | unexpectedEnd => .unexpectedEnd
  | nonTerminatedString => .nonTerminatedString
  | invalidEscape _ => .invalidEscape
  | expectedKind _ _ => .unexpectedToken
  | expectedWord _ _ => .unexpectedToken
  | unexpectedToken _ => .unexpectedToken
  | reservedEnumValue _ => .unexpectedToken
  | unknownLocation _ => .unexpectedToken
  | reported category _ => category

/-- The wording of a cause. -/
def message : Cause → Text
  | invalidCharacter c => [c]
  | unexpectedCharacter c => "Unexpected character \"" ++ [c] ++ "\""
  | expectedDot found => "Expected \".\" but found \"" ++ [found] ++ "\""
  | unexpectedEnd => "Unexpected <EOF>"
  | nonTerminatedString => []
  | invalidEscape rest => CodePoint.ofChar '\\' :: rest
  | expectedKind kind found => "Expected " ++ kind.label ++ " but found \"" ++ found ++ "\""
  | expectedWord word found => "Expected \"" ++ word ++ "\" but found \"" ++ found ++ "\""
  | unexpectedToken found => "Unexpected \"" ++ found ++ "\""
  | reservedEnumValue name => "Enum value cannot be \"" ++ name ++ "\""
  | unknownLocation name => "Unexpected Name " ++ name
  | reported .unexpectedEnd _ => "Unexpected <EOF>"
  | reported _ message => message

end Cause

end SyntaxError

/-- A cause and the offset at which it shows. -/
structure SyntaxError where
  cause : SyntaxError.Cause
  position : Int
deriving DecidableEq

namespace SyntaxError

/-- The wording without a view of the document. -/
def message (e : SyntaxError) : Text := e.cause.message

/-- How many lines are shown before and after the line of an error. -/
def context : Int := 2

/-- The wording followed by a view of the document around the error, if the error lies in it. -/
def highlighted? (e : SyntaxError) (source : Text) : Option Text :=
  (Source.excerpt? source e.position context).map fun view => e.message ++ " " ++ view

/-- Line and column of the error, if it lies in the document. -/
def address? (e : SyntaxError) (source : Text) : Option (Int × Int) :=
  Source.locate? source e.position

end SyntaxError

end GraphSchema
