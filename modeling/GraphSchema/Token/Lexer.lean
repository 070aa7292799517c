import GraphSchema.SyntaxError
import GraphSchema.Text.Alphanumeric
import GraphSchema.Text.Block
import GraphSchema.Number.Integer

/-!
# Reading tokens

A lexer stands at an offset of a document and reads one token at a time. Comments and ignored
characters are read over and kept with the token that follows them. A lexer that has met an error
stays where it was when it met it, and can be asked for a token again.

## Main definitions

* `Lexer`: a lexer, and `Lexer.ofText`, a lexer at the start of a document.
* `Lexer.next`: the next token, or nothing after the end.
* `Scan`: reading from a place in the text.
-/

namespace GraphSchema

/-- A place in a document: an offset and the text from there on. -/
structure Place where
  position : Nat
  rest : Text

/-- Reading from a place; where an error is met the place is kept. -/
abbrev Scan := EStateM SyntaxError Place

namespace Scan

open SyntaxError (Cause)

/-- The code point ahead. -/
def peek? : Scan (Option CodePoint) := do return (← get).rest.head?

/-- Goes on by `n` code points. -/
def skip (n : Nat) : Scan Unit :=
  modify fun p => { position := p.position + n, rest := p.rest.drop n }

/-- Fails at an offset `back` code points before the present one. -/
def fail {α : Type} (cause : Cause) (back : Nat) : Scan α := do
  throw { cause, position := ((← get).position : Int) - back }

/-- Whether a word stands ahead. -/
def ahead (word : Text) : Scan Bool := do return word.isPrefixOf (← get).rest

/-- Reads over the code points that satisfy a test. -/
def skipWhile (p : CodePoint → Bool) : Scan Unit := do
  skip ((← get).rest.takeWhile p).length

/-- A code point that may stand in a document: not a control, or a tab. -/
def isVisible (c : CodePoint) : Bool := 0x20 ≤ c.val || c = '\t'

/-- The code points that separate tokens and mean nothing. -/
def isIgnored (c : CodePoint) : Bool :=
  c = '\n' || c = '\r' || c = '\uFEFF' || c = '\t' || c = ' ' || c = ','

/-- A code point that starts a name. -/
def startsName (c : CodePoint) : Bool := c = '_' || c.isLetter

/-- A code point that goes on with a name. -/
def inName (c : CodePoint) : Bool := startsName c || c.isDigit

/-- What stands in front of a token: the comments in it without their marks, the whole of it, and
what follows. -/
def splitIgnored : Text → List Text × Text × Text
  | [] => ([], [], [])
  | c :: rest =>
    if isIgnored c then
      let (comments, ignored, left) := splitIgnored rest
      (comments, c :: ignored, left)
    else if c = '#' then
      let comment := rest.takeWhile isVisible
      let (comments, ignored, left) := splitIgnored (rest.dropWhile isVisible)
      (comment :: comments, c :: comment ++ ignored, left)
    else ([], [], c :: rest)
termination_by t => t.length
decreasing_by
  · simp
  · have := (List.dropWhile_suffix isVisible (l := rest)).length_le
    simp only [List.length_cons]
    omega

/-- Reads over what stands in front of a token: the comments in it, and its whole text. -/
def ignored : Scan (List Text × Text) := do
  let (comments, ignored, left) := splitIgnored (← get).rest
  modify fun p => { position := p.position + ignored.length, rest := left }
  return (comments, ignored)

/-- What was read since an earlier place. -/
def readSince (earlier : Place) : Scan Text := do
  return earlier.rest.take ((← get).position - earlier.position)

/-- A token from an earlier place up to here. -/
def tokenSince (earlier : Place) (kind : Token.Kind) (value : Text) : Scan Token := do
  return Token.placed kind earlier.position (← get).position value

/-- Reads `n` dots. -/
def dots : Nat → Scan Unit
  | 0 => return
  | n + 1 => do
    match ← peek? with
    | none => fail .unexpectedEnd 0
    | some c =>
      skip 1
      if c = '.' then dots n else fail (.expectedDot c) 0

/-- Three dots. -/
def ellipsis : Scan Token := do
  let start ← get
  dots 3
  tokenSince start .ellipsis []

/-- What a single code point after a backslash stands for. -/
def shortEscape? (c : CodePoint) : Option CodePoint :=
  if c = '"' ∨ c = '\\' ∨ c = '/' then some c
  else if c = 'b' then some '\x08'
  else if c = 'f' then some '\x0c'
  else if c = 'n' then some '\n'
  else if c = 'r' then some '\r'
  else if c = 't' then some '\t'
  else none

/-- Reads up to `n` code points, and stops after the first that is not alphanumeric. -/
def escapeDigits : Nat → Scan Unit
  | 0 => return
  | n + 1 => do
    match ← peek? with
    | none => do throw { cause := .nonTerminatedString, position := (← get).position + 1 }
    | some c =>
      skip 1
      if c.isAlphanumeric then escapeDigits n

/-- The code point that four hexadecimal digits name. -/
def unicodeEscape : Scan CodePoint := do
  let start ← get
  escapeDigits 4
  let digits ← readSince start
  match if digits.length = 4 then Numeral.readHexadecimal? digits else none with
  | some n => return CodePoint.ofNat n.toNat
  | none => do
    throw { cause := .invalidEscape (CodePoint.ofChar 'u' :: digits),
            position := (start.position : Int) - 1 }

/-- What stands after a backslash. -/
def escape : Scan CodePoint := do
  match ← peek? with
  | none => throw { cause := .nonTerminatedString, position := (← get).position + 1 }
  | some c =>
    skip 1
    match shortEscape? c with
    | some d => return d
    | none => if c = 'u' then unicodeEscape else fail (.invalidEscape [c]) 1

/-- The value of a string up to its closing quotation mark; `fuel` is as long as the text ahead. -/
def stringBody : (fuel : Text) → Scan Text
  | [] => fail .nonTerminatedString 0
  | _ :: fuel => do
    match ← peek? with
    | none => fail .nonTerminatedString 0
    | some c =>
      skip 1
      if c = '"' then return []
      else if c = '\\' then
        let d ← escape
        return d :: (← stringBody fuel)
      else if c = '\n' ∨ c = '\r' then fail .nonTerminatedString 1
      else if isVisible c then return c :: (← stringBody fuel)
      else fail (.invalidCharacter c) 1

/-- A string on one line. -/
def string : Scan Token := do
  let start ← get
  skip 1
  let value ← stringBody (← get).rest
  tokenSince start .string value

/-- Three quotation marks. -/
def tripleQuote : Text := "\"\"\""

/-- The raw text of a block string up to its closing quotation marks; `fuel` is as long as the text
ahead. -/
def blockBody : (fuel : Text) → Scan Text
  | [] => fail .nonTerminatedString 0
  | _ :: fuel => do
    if ← ahead tripleQuote then
      skip 3
      return []
    else
      match ← peek? with
      | none => fail .nonTerminatedString 0
      | some c =>
        skip 1
        if c = '\\' then
          if ← ahead tripleQuote then
            skip 3
            return tripleQuote ++ (← blockBody fuel)
          else return c :: (← blockBody fuel)
        else if isVisible c ∨ c = '\n' ∨ c = '\r' then return c :: (← blockBody fuel)
        else fail (.invalidCharacter c) 1

/-- A string between triple quotation marks. -/
def blockString : Scan Token := do
  let start ← get
  skip 3
  let raw ← blockBody (← get).rest
  tokenSince start .blockString raw.blockValue

/-- One digit or more. -/
def digits : Scan Unit := do
  match ← peek? with
  | none => fail .unexpectedEnd 0
  | some c => if c.isDigit then skipWhile CodePoint.isDigit else fail (.unexpectedCharacter c) 0

/-- A zero on its own, or digits that do not start with zero. -/
def wholeDigits : Scan Unit := do
  match ← peek? with
  | none => fail .unexpectedEnd 0
  | some c =>
    if c = '0' then
      skip 1
      match ← peek? with
      | none => return
      | some d => if d.isDigit then fail (.unexpectedCharacter d) 0
    else digits

/-- Reads a code point that satisfies a test, if one is ahead. -/
def accept (p : CodePoint → Bool) : Scan Bool := do
  match ← peek? with
  | none => return false
  | some c => if p c then do skip 1; return true else return false

/-- The fraction of a number, if there is one. -/
def fraction : Scan Bool := do
  if ← accept (· = '.') then
    digits
    return true
  else return false

/-- The exponent of a number, if there is one. -/
def exponent : Scan Bool := do
  if ← accept (fun c => c = 'e' || c = 'E') then
    let _ ← accept fun c => c = '+' || c = '-'
    wholeDigits
    return true
  else return false

/-- A number: digits with a sign, a fraction and an exponent, and no letter right after it. -/
def number : Scan Token := do
  let start ← get
  let _ ← accept (· = '-')
  wholeDigits
  let hasFraction ← fraction
  let hasExponent ← exponent
  match ← peek? with
  | none => pure ()
  | some c => if startsName c then fail (.unexpectedCharacter c) 0
  tokenSince start (if hasFraction || hasExponent then .float else .integer) (← readSince start)

/-- A name. -/
def name : Scan Token := do
  let start ← get
  skipWhile inName
  tokenSince start .name (← readSince start)

/-- The token that starts with the code point ahead. -/
def token (c : CodePoint) : Scan Token := do
  if isVisible c then
    match Token.Kind.ofSymbol? c with
    | some kind =>
      let start ← get
      skip 1
      tokenSince start kind []
    | none =>
      if c = '.' then ellipsis
      else if ← ahead tripleQuote then blockString
      else if c = '"' then string
      else if c = '-' ∨ c.isDigit then number
      else if startsName c then name
      else fail (.unexpectedCharacter c) 0
  else do
    skip 1
    fail (.invalidCharacter c) 0

end Scan

/-- A lexer: its place, and whether the tokens for the two ends of the document have been given. -/
structure Lexer where
  place : Place
  started : Bool
  done : Bool

namespace Lexer

/-- A lexer at the start of a document. -/
def ofText (source : Text) : Lexer :=
  { place := { position := 0, rest := source }, started := false, done := false }

/-- Reads from the place of a lexer. -/
def scan {α : Type} (x : Scan α) : EStateM SyntaxError Lexer α := fun lexer =>
  match x lexer.place with
  | .ok a place => .ok a { lexer with place }
  | .error e place => .error e { lexer with place }

/-- The next token: one for the start of the document, those of the text, and one for the end; after
that nothing. -/
def next : EStateM SyntaxError Lexer (Option Token) := do
  let lexer ← get
  if lexer.done then return none
  else if lexer.started then
    let (comments, ignored) ← scan Scan.ignored
    match ← scan Scan.peek? with
    | none => do
      modify fun l => { l with done := true }
      let position := (← get).place.position
      return some { Token.placed .finish position position [] with comments, ignored }
    | some c => do
      let token ← scan (Scan.token c)
      return some { token with comments, ignored }
  else do
    modify fun l => { l with started := true }
    return some (Token.placed .start 0 0 [])

end Lexer

end GraphSchema
